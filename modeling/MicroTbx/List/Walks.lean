import MicroTbx.List.Links
import MicroTbx.List.Interface

/-! # Walking over a list

The loops that follow the links of a list: looking for the node of an item, and
sorting. What they find and leave is said of the sequence of items.
-/

namespace MicroTbx

open Program

/-- The cells of a list that a function may work on. -/
structure ListCells (target : Target) (cells : Cells) (list : Nat) (nodes : List Nat) : Prop where
  apart : Apart target (list :: nodes)
  shape : ListShape cells list nodes
  list_notMem : list ∉ nodes
  length_lt : nodes.length < target.loopFuel

/-- The result of a search: `NULL`, or the first node with the item. -/
def Found (cells : Cells) (nodes : List Nat) (item result : Nat) : Prop :=
  (result = null ∧ item ∉ itemsOf cells nodes) ∨
    ∃ front back, nodes = front ++ result :: back ∧ item ∉ itemsOf cells front ∧
      cells result ListNode.itemPtr = item

variable {target : Target} {list node item start current depth fuel calls : Nat}
  {nodes front back rest : List Nat} {state middle : State} {cells cells' : Cells}

theorem Apart.sub {objects others : List Nat} (hapart : Apart target objects)
    (hsub : ∀ pointer ∈ others, pointer ∈ objects) : Apart target others where
  ne_null := fun pointer hpointer => hapart.ne_null pointer (hsub pointer hpointer)
  field_inj := fun left hleft right hright =>
    hapart.field_inj left (hsub left hleft) right (hsub right hright)

theorem ListCells.member (hcells : ListCells target cells list (front ++ node :: back)) :
    Member target cells list node front back :=
  ⟨hcells.apart, hcells.shape, hcells.list_notMem⟩

/-! ## Searching -/

theorem findListNodeLoop_spec (hedited : Edited target list nodes state middle cells)
    (hapart : Apart target (list :: nodes))
    (hlinked : Chain.Linked (cells · ListNode.nextNodePtr) null start rest)
    (hsub : ∀ node ∈ rest, node ∈ nodes) (hfuel : rest.length < fuel) :
    (findListNodeLoop target item fuel start).Returns middle fun result after =>
      Edited target list nodes state after cells ∧ Found cells rest item result := by
  induction rest generalizing start fuel middle with
  | nil =>
      obtain ⟨fuel, rfl⟩ := Nat.exists_eq_succ_of_ne_zero (by omega : fuel ≠ 0)
      rw [Chain.linked_nil] at hlinked
      rw [findListNodeLoop, if_neg (by simp [hlinked])]
      exact (returns_pure _).mpr ⟨hedited, .inl ⟨rfl, List.not_mem_nil⟩⟩
  | cons node later ih =>
      obtain ⟨fuel, rfl⟩ := Nat.exists_eq_succ_of_ne_zero (by omega : fuel ≠ 0)
      obtain ⟨rfl, hne, hlater⟩ := Chain.linked_cons.mp hlinked
      obtain ⟨hnode, hsubLater⟩ := List.forall_mem_cons.mp hsub
      intro depth
      rw [findListNodeLoop, if_pos hne, wp_bind]
      refine hedited.wp_loadNode hapart hnode (by norm_num) fun _ hedited => ?_
      by_cases hitem : cells start ListNode.itemPtr = item
      · rw [if_pos hitem]
        exact ⟨rfl, hedited, .inr ⟨[], later, rfl, List.not_mem_nil, hitem⟩⟩
      · rw [if_neg hitem, wp_bind]
        refine hedited.wp_loadNode hapart hnode (by norm_num) fun _ hedited => ?_
        refine (ih hedited hlater hsubLater (by simpa using hfuel)).wp ?_
        rintro result after ⟨hafter, ⟨hnull, hnot⟩ | ⟨front, back, rfl, hnot, hfound⟩⟩
        · refine ⟨rfl, hafter, .inl ⟨hnull, ?_⟩⟩
          rw [itemsOf_cons, List.mem_cons, not_or]
          exact ⟨Ne.symm hitem, hnot⟩
        · refine ⟨rfl, hafter, .inr ⟨start :: front, back, rfl, ?_, hfound⟩⟩
          rw [itemsOf_cons, List.mem_cons, not_or]
          exact ⟨Ne.symm hitem, hnot⟩

theorem tbxListFindListNode_spec (hedited : Edited target list nodes state middle cells)
    (hcells : ListCells target cells list nodes) (hitem : item ≠ null) :
    (tbxListFindListNode target list item).Returns middle fun result after =>
      Edited target list nodes state after cells ∧ Found cells nodes item result := by
  have hlist := hcells.apart.ne_null list List.mem_cons_self
  intro depth
  rw [tbxListFindListNode, wp_bind]
  refine wp_tbxAssert_of (decide_eq_true hlist) ?_
  rw [wp_bind]
  refine wp_tbxAssert_of (decide_eq_true hitem) ?_
  rw [if_pos ⟨hlist, hitem⟩, wp_bind, wp_enterCritical, wp_bind]
  refine hedited.wp_load hcells.apart (by norm_num) ?_
  rw [wp_bind]
  refine (findListNodeLoop_spec hedited hcells.apart hcells.shape.links.forward
    (fun _ hnode => hnode) hcells.length_lt).wp ?_
  intro result after hresult
  rw [wp_bind]
  exact wp_leaveCritical.mpr ⟨rfl, hresult⟩

/-- A node that was found is not `NULL`. -/
theorem Found.ne_null_iff {result : Nat} (hfound : Found cells nodes item result)
    (hapart : Apart target (list :: nodes)) :
    result ≠ null ↔ item ∈ itemsOf cells nodes := by
  rcases hfound with ⟨rfl, hnot⟩ | ⟨front, back, rfl, hnot, hitem⟩
  · simp [hnot]
  · refine iff_of_true (hapart.ne_null result ?_) ?_
    · exact List.mem_cons_of_mem _ List.mem_append_cons_self
    · simp [hitem]

/-! ## Reading -/

theorem getItemAtEnd_spec (hedited : Edited target list nodes state middle cells)
    (hcells : ListCells target cells list nodes) (site : Site) {member : Nat} (hmember : member < 3)
    {end? : Option Nat} (hend : ∀ node ∈ end?, node ∈ nodes)
    (hvalue : cells list member = end?.getD null) :
    (getItemAtEnd target site member list).Returns middle fun result after =>
      Edited target list nodes state after cells ∧
        result = (end?.map (cells · ListNode.itemPtr)).getD null := by
  have hlist := hcells.apart.ne_null list List.mem_cons_self
  intro depth
  rw [getItemAtEnd, wp_bind]
  refine wp_tbxAssert_of (decide_eq_true hlist) ?_
  rw [if_pos hlist, wp_bind, wp_enterCritical, wp_bind]
  refine hedited.wp_load hcells.apart hmember ?_
  rw [wp_bind]
  cases end? with
  | none =>
      rw [Option.getD_none] at hvalue
      rw [if_neg (by simp [hvalue]), wp_pure, wp_bind]
      exact wp_leaveCritical.mpr ⟨rfl, hedited, rfl⟩
  | some node =>
      have hnode := hend node rfl
      have hne := hcells.apart.ne_null node (List.mem_cons_of_mem _ hnode)
      rw [Option.getD_some] at hvalue
      rw [hvalue, if_pos hne, wp_bind]
      refine hedited.wp_load hcells.apart hmember ?_
      rw [hvalue]
      refine hedited.wp_loadNode hcells.apart hnode (by norm_num) fun after hafter => ?_
      rw [wp_bind]
      exact wp_leaveCritical.mpr ⟨rfl, hafter, rfl⟩

theorem tbxListGetFirstItem_spec (hedited : Edited target list nodes state middle cells)
    (hcells : ListCells target cells list nodes) :
    (tbxListGetFirstItem target list).Returns middle fun result after =>
      Edited target list nodes state after cells ∧
        result = (itemsOf cells nodes).head?.getD null := by
  have hfirst := hcells.shape.links.first_eq
  rw [List.headD_eq_head?_getD] at hfirst
  refine (getItemAtEnd_spec hedited hcells _ (by norm_num) ?_ hfirst).mono ?_
  · exact fun node => List.mem_of_head?
  · rintro result after ⟨hafter, rfl⟩
    rw [itemsOf, List.head?_map]
    exact ⟨hafter, rfl⟩

theorem tbxListGetLastItem_spec (hedited : Edited target list nodes state middle cells)
    (hcells : ListCells target cells list nodes) :
    (tbxListGetLastItem target list).Returns middle fun result after =>
      Edited target list nodes state after cells ∧
        result = (itemsOf cells nodes).getLast?.getD null := by
  have hlast := hcells.shape.links.last_eq
  rw [List.getLastD_eq_getLast?] at hlast
  refine (getItemAtEnd_spec hedited hcells _ (by norm_num) ?_ hlast).mono ?_
  · exact fun node => List.mem_of_getLast?
  · rintro result after ⟨hafter, rfl⟩
    rw [itemsOf, List.getLast?_map]
    exact ⟨hafter, rfl⟩

/-- The neighbour on one side, where `side` picks its node and `value` its item. -/
theorem getItemNextTo_spec (hedited : Edited target list nodes state middle cells)
    (hcells : ListCells target cells list nodes) (hitem : item ≠ null) (site : Site) {member : Nat}
    (hmember : member < 3) {side : List Nat → List Nat → Option Nat}
    {value : List Nat → Option Nat}
    (hside : ∀ {front node back}, nodes = front ++ node :: back →
      cells node member = (side front back).getD null ∧ ∀ other ∈ side front back, other ∈ nodes)
    (hvalue : ∀ {front node back}, nodes = front ++ node :: back → item ∉ itemsOf cells front →
      cells node ListNode.itemPtr = item →
      value (itemsOf cells nodes) = (side front back).map (cells · ListNode.itemPtr))
    (habsent : item ∉ itemsOf cells nodes → value (itemsOf cells nodes) = none) :
    (getItemNextTo target site member list item).Returns middle fun result after =>
      Edited target list nodes state after cells ∧
        result = (value (itemsOf cells nodes)).getD null := by
  have hlist := hcells.apart.ne_null list List.mem_cons_self
  intro depth
  rw [getItemNextTo, wp_bind]
  refine wp_tbxAssert_of (decide_eq_true hlist) ?_
  rw [wp_bind]
  refine wp_tbxAssert_of (decide_eq_true hitem) ?_
  rw [if_pos ⟨hlist, hitem⟩, wp_bind, wp_enterCritical, wp_bind]
  refine (tbxListFindListNode_spec hedited hcells hitem).wp ?_
  rintro node middle ⟨hedited, ⟨rfl, hnot⟩ | ⟨front, back, hsplit, hnot, hfound⟩⟩
  · rw [wp_bind, if_neg (by simp), wp_pure, wp_bind, habsent hnot]
    exact wp_leaveCritical.mpr ⟨rfl, hedited, rfl⟩
  · have hnode : node ∈ nodes := hsplit ▸ List.mem_append_cons_self
    have hne := hcells.apart.ne_null node (List.mem_cons_of_mem _ hnode)
    obtain ⟨hneighbour, hmem⟩ := hside hsplit
    rw [hvalue hsplit hnot hfound, wp_bind, if_pos hne, wp_bind]
    refine hedited.wp_loadNode hcells.apart hnode hmember fun _ hedited => ?_
    cases hcase : side front back with
    | none =>
        rw [hcase, Option.getD_none] at hneighbour
        rw [if_neg (by simp [hneighbour]), wp_pure, wp_bind]
        exact wp_leaveCritical.mpr ⟨rfl, hedited, rfl⟩
    | some other =>
        have hother := hmem other hcase
        rw [hcase, Option.getD_some] at hneighbour
        rw [hneighbour, if_pos (hcells.apart.ne_null other (List.mem_cons_of_mem _ hother))]
        refine hedited.wp_loadNode hcells.apart hother (by norm_num) fun after hafter => ?_
        rw [wp_bind]
        exact wp_leaveCritical.mpr ⟨rfl, hafter, rfl⟩

theorem tbxListGetPreviousItem_spec (hedited : Edited target list nodes state middle cells)
    (hcells : ListCells target cells list nodes) (hitem : item ≠ null) :
    (tbxListGetPreviousItem target list item).Returns middle fun result after =>
      Edited target list nodes state after cells ∧
        result = (Sequence.previous item (itemsOf cells nodes)).getD null := by
  refine @getItemNextTo_spec _ _ _ _ _ _ _ hedited hcells hitem _ _ (by norm_num)
    (fun front _ => front.getLast?) (Sequence.previous item) ?_ ?_ Sequence.previous_absent
  · rintro front node back rfl
    refine ⟨?_, fun other hother => List.mem_append_left _ (List.mem_of_getLast? hother)⟩
    rw [hcells.shape.links.prev_eq, List.getLastD_eq_getLast?]
  · rintro front node back rfl hnot rfl
    rw [itemsOf_append, itemsOf_cons, Sequence.previous_split hnot, itemsOf, List.getLast?_map]

theorem tbxListGetNextItem_spec (hedited : Edited target list nodes state middle cells)
    (hcells : ListCells target cells list nodes) (hitem : item ≠ null) :
    (tbxListGetNextItem target list item).Returns middle fun result after =>
      Edited target list nodes state after cells ∧
        result = (Sequence.next item (itemsOf cells nodes)).getD null := by
  refine @getItemNextTo_spec _ _ _ _ _ _ _ hedited hcells hitem _ _ (by norm_num)
    (fun _ back => back.head?) (Sequence.next item) ?_ ?_ Sequence.next_absent
  · rintro front node back rfl
    refine ⟨?_, fun other hother => ?_⟩
    · rw [hcells.shape.links.next_eq, List.headD_eq_head?_getD]
    · exact List.mem_append_right _ (List.mem_cons_of_mem _ (List.mem_of_head? hother))
  · rintro front node back rfl hnot rfl
    rw [itemsOf_append, itemsOf_cons, Sequence.next_split hnot, itemsOf, List.head?_map]

/-! ## Swapping -/

theorem itemsOf_set (hnodup : nodes.Nodup) (hsplit : nodes = front ++ node :: back) (value : Nat) :
    itemsOf (cells.set node ListNode.itemPtr value) nodes =
      (itemsOf cells nodes).set front.length value := by
  subst hsplit
  have hnot := (List.nodup_cons.mp (List.nodup_middle.mp hnodup)).1
  rw [List.mem_append, not_or] at hnot
  have hother : ∀ nodes : List Nat, node ∉ nodes →
      itemsOf (cells.set node ListNode.itemPtr value) nodes = itemsOf cells nodes :=
    fun nodes hnodes => itemsOf_congr fun other hmem =>
      Cells.set_of_ne (.inl (ne_of_mem_of_not_mem hmem hnodes))
  rw [itemsOf_append, itemsOf_cons, hother front hnot.1, hother back hnot.2, Cells.set_self,
    itemsOf_append, itemsOf_cons, List.set_append_right _ _ (by simp [itemsOf])]
  simp [itemsOf]

theorem idxOf_itemsOf (hsplit : nodes = front ++ node :: back) (hnot : item ∉ itemsOf cells front)
    (hitem : cells node ListNode.itemPtr = item) :
    (itemsOf cells nodes).idxOf item = front.length := by
  rw [hsplit, itemsOf_append, itemsOf_cons, List.idxOf_append_of_notMem hnot, hitem,
    List.idxOf_cons_self]
  simp [itemsOf]

/-- Items are written, links are not. -/
theorem ListShape.set_item {value : Nat} (hshape : ListShape cells list nodes)
    (hne : node ≠ list) :
    ListShape (cells.set node ListNode.itemPtr value) list nodes :=
  hshape.congr (fun _ _ => Cells.set_of_ne (.inl hne.symm))
    (fun _ _ => Cells.set_of_ne (.inr (by norm_num)))
    fun _ _ => Cells.set_of_ne (.inr (by norm_num))

theorem tbxListSwapItems_spec {item1 item2 : Nat}
    (hedited : Edited target list nodes state middle cells)
    (hcells : ListCells target cells list nodes) (hitem1 : item1 ≠ null) (hitem2 : item2 ≠ null) :
    (tbxListSwapItems target list item1 item2).Returns middle fun _ after =>
      ∃ cells', Edited target list nodes state after cells' ∧ ListShape cells' list nodes ∧
        itemsOf cells' nodes = Sequence.swap item1 item2 (itemsOf cells nodes) := by
  have hlist := hcells.apart.ne_null list List.mem_cons_self
  intro depth
  rw [tbxListSwapItems, wp_bind]
  refine wp_tbxAssert_of (decide_eq_true hlist) ?_
  rw [wp_bind]
  refine wp_tbxAssert_of (decide_eq_true hitem1) ?_
  rw [wp_bind]
  refine wp_tbxAssert_of (decide_eq_true hitem2) ?_
  rw [if_pos ⟨hlist, hitem1, hitem2⟩, wp_bind, wp_enterCritical, wp_bind]
  refine (tbxListFindListNode_spec hedited hcells hitem1).wp ?_
  rintro node1 _ ⟨hedited, hfound1⟩
  rw [wp_bind]
  refine (tbxListFindListNode_spec hedited hcells hitem2).wp ?_
  rintro node2 middle ⟨hedited, hfound2⟩
  have hboth : (node1 ≠ null ∧ node2 ≠ null) ↔
      (item1 ∈ itemsOf cells nodes ∧ item2 ∈ itemsOf cells nodes) :=
    and_congr (hfound1.ne_null_iff hcells.apart) (hfound2.ne_null_iff hcells.apart)
  rw [wp_bind]
  by_cases hne : node1 ≠ null ∧ node2 ≠ null
  · obtain ⟨front1, back1, hsplit1, hnot1, hitem1⟩ := hfound1.resolve_left fun h => hne.1 h.1
    obtain ⟨front2, back2, hsplit2, hnot2, hitem2⟩ := hfound2.resolve_left fun h => hne.2 h.1
    have hnode1 : node1 ∈ nodes := hsplit1 ▸ List.mem_append_cons_self
    have hnode2 : node2 ∈ nodes := hsplit2 ▸ List.mem_append_cons_self
    have hnodup := hcells.shape.links.nodup
    rw [if_pos hne, wp_bind]
    refine hedited.wp_storeNode hcells.apart hnode1 (by norm_num) fun _ hedited => ?_
    refine hedited.wp_storeNode hcells.apart hnode2 (by norm_num) fun after hedited => ?_
    refine wp_leaveCritical.mpr ⟨rfl, _, hedited, ?_, ?_⟩
    · exact (hcells.shape.set_item (ne_of_mem_of_not_mem hnode1 hcells.list_notMem)).set_item
        (ne_of_mem_of_not_mem hnode2 hcells.list_notMem)
    · rw [Sequence.swap, if_pos (hboth.mp hne), itemsOf_set hnodup hsplit2,
        itemsOf_set hnodup hsplit1, idxOf_itemsOf hsplit1 hnot1 hitem1,
        idxOf_itemsOf hsplit2 hnot2 hitem2]
  · rw [if_neg hne, wp_pure]
    refine wp_leaveCritical.mpr ⟨rfl, cells, hedited, hcells.shape, ?_⟩
    rw [Sequence.swap, if_neg (mt hboth.mpr hne)]

/-! ## Sorting -/

/-- Only items of the given nodes were written. -/
def ItemsWritten (cells after : Cells) (nodes : List Nat) : Prop :=
  ∀ pointer index, pointer ∉ nodes ∨ index ≠ ListNode.itemPtr →
    after pointer index = cells pointer index

variable {compareItemsFcn : CompareItems}

theorem ItemsWritten.shape {written : List Nat} (hwritten : ItemsWritten cells cells' written)
    (hshape : ListShape cells list nodes) (hlist : list ∉ written) :
    ListShape cells' list nodes :=
  hshape.congr (fun i _ => hwritten list i (.inl hlist))
    (fun node _ => hwritten node _ (.inr (by norm_num)))
    fun node _ => hwritten node _ (.inr (by norm_num))

theorem sortIndexLoop_spec (hedited : Edited target list nodes state middle cells)
    (hapart : Apart target (list :: nodes))
    (hlinked : Chain.Linked (cells · ListNode.nextNodePtr) null start rest)
    (hcurrent : current ∈ nodes) (hnot : current ∉ rest) (hsub : ∀ node ∈ rest, node ∈ nodes)
    (hfuel : rest.length < fuel) :
    (sortIndexLoop target compareItemsFcn current fuel calls start).Returns middle
      fun result after => result = calls + rest.length ∧
        ∃ cells', Edited target list nodes state after cells' ∧
          ItemsWritten cells cells' (current :: rest) ∧
          (cells' current ListNode.itemPtr, itemsOf cells' rest) =
            Sequence.exchangePass (greater compareItemsFcn) calls
              (cells current ListNode.itemPtr) (itemsOf cells rest) := by
  induction rest generalizing start fuel middle calls cells with
  | nil =>
      obtain ⟨fuel, rfl⟩ := Nat.exists_eq_succ_of_ne_zero (by omega : fuel ≠ 0)
      rw [Chain.linked_nil] at hlinked
      rw [sortIndexLoop, if_neg (by simp [hlinked])]
      exact (returns_pure _).mpr ⟨rfl, cells, hedited, fun _ _ _ => rfl, rfl⟩
  | cons idx later ih =>
      obtain ⟨fuel, rfl⟩ := Nat.exists_eq_succ_of_ne_zero (by omega : fuel ≠ 0)
      have hnodup := hlinked.nodup
      obtain ⟨rfl, hne, hlater⟩ := Chain.linked_cons.mp hlinked
      obtain ⟨hidx, hsubLater⟩ := List.forall_mem_cons.mp hsub
      rw [List.mem_cons, not_or] at hnot
      intro depth
      -- What follows the comparison, for whatever it did to the two items.
      have hrest : ∀ {between : State} {exchanged : Cells},
          Edited target list nodes state between exchanged →
          ItemsWritten cells exchanged [current, start] →
          (do let next ← loadNode target start ListNode.nextNodePtr
              sortIndexLoop target compareItemsFcn current fuel (calls + 1) next).wp
            (fun result final after => final = depth ∧ result = calls + 1 + later.length ∧
              ∃ cells', Edited target list nodes state after cells' ∧
                ItemsWritten cells cells' (current :: start :: later) ∧
                cells' start ListNode.itemPtr = exchanged start ListNode.itemPtr ∧
                (cells' current ListNode.itemPtr, itemsOf cells' later) =
                  Sequence.exchangePass (greater compareItemsFcn) (calls + 1)
                    (exchanged current ListNode.itemPtr) (itemsOf cells later)) depth between := by
        intro between exchanged hbetween hexchanged
        have hstart : start ∉ current :: later := by
          rw [List.mem_cons, not_or]
          exact ⟨Ne.symm hnot.1, (List.nodup_cons.mp hnodup).1⟩
        have hapartLater : ∀ node ∈ later, node ∉ [current, start] := by
          intro node hnode hmem
          rcases List.mem_pair.mp hmem with rfl | rfl
          · exact hnot.2 hnode
          · exact (List.nodup_cons.mp hnodup).1 hnode
        have hitems : itemsOf exchanged later = itemsOf cells later :=
          itemsOf_congr fun node hnode => hexchanged node _ (.inl (hapartLater node hnode))
        rw [wp_bind]
        refine hbetween.wp_loadNode hapart hidx (by norm_num) fun _ hedited => ?_
        rw [hexchanged start _ (.inr (by norm_num))]
        refine (ih hedited (hlater.congr fun node _ => hexchanged node _ (.inr (by norm_num)))
          hnot.2 hsubLater (by simpa using hfuel)).wp ?_
        rintro result after ⟨rfl, cells', hafter, hwritten, hpass⟩
        rw [hitems] at hpass
        refine ⟨rfl, rfl, cells', hafter, fun pointer index houtside => ?_,
          hwritten start _ (.inl hstart), hpass⟩
        rw [hwritten pointer index ?_, hexchanged pointer index ?_]
        · exact houtside.imp_left fun houtside hmem => houtside
            (by rcases List.mem_pair.mp hmem with rfl | rfl <;> simp)
        · exact houtside.imp_left fun houtside hmem => houtside
            (by rcases List.mem_cons.mp hmem with rfl | hmem <;> simp_all)
      rw [sortIndexLoop, if_pos hne, wp_bind]
      refine hedited.wp_loadNode hapart hcurrent (by norm_num) fun _ hedited => ?_
      rw [wp_bind]
      refine hedited.wp_loadNode hapart hidx (by norm_num) fun _ hedited => ?_
      rw [wp_bind]
      by_cases hgreater : compareItemsFcn calls (cells current ListNode.itemPtr)
          (cells start ListNode.itemPtr) = tbxTrue
      · rw [if_pos hgreater, wp_bind]
        refine hedited.wp_loadNode hapart hcurrent (by norm_num) fun _ hedited => ?_
        rw [wp_bind]
        refine hedited.wp_loadNode hapart hidx (by norm_num) fun _ hedited => ?_
        rw [wp_bind]
        refine hedited.wp_storeNode hapart hcurrent (by norm_num) fun _ hedited => ?_
        refine hedited.wp_storeNode hapart hidx (by norm_num) fun _ hedited => ?_
        refine wp_mono (hrest hedited fun pointer index houtside => ?_) ?_
        · rw [Cells.set_of_ne, Cells.set_of_ne]
          · exact houtside.imp_left fun hmem heq => hmem (heq ▸ List.mem_cons_self)
          · exact houtside.imp_left fun hmem heq => hmem (by simp [heq])
        rintro result final after ⟨rfl, rfl, cells', hafter, hwritten, hstart, hpass⟩
        refine ⟨rfl, ?_, cells', hafter, hwritten, ?_⟩
        · rw [List.length_cons]
          omega
        · rw [Cells.set_self] at hstart
          rw [Cells.set_of_ne (.inl hnot.1), Cells.set_self] at hpass
          rw [itemsOf_cons, itemsOf_cons, hstart, Sequence.exchangePass,
            if_pos (by simpa [greater] using hgreater), ← hpass]
      · rw [if_neg hgreater, wp_pure]
        refine wp_mono (hrest hedited fun _ _ _ => rfl) ?_
        rintro result final after ⟨rfl, rfl, cells', hafter, hwritten, hstart, hpass⟩
        refine ⟨rfl, ?_, cells', hafter, hwritten, ?_⟩
        · rw [List.length_cons]
          omega
        · rw [itemsOf_cons, itemsOf_cons, hstart, Sequence.exchangePass,
            if_neg (by simpa [greater] using hgreater), ← hpass]

/-- The loop of `TbxListSortItems` with its number of comparisons as a result. -/
def countedLoop (target : Target) (compareItemsFcn : CompareItems) : Nat → Nat → Nat → Code Nat
  | 0, _, _ => .fault .endlessLoop
  | fuel + 1, calls, currentNode => do
      let next ← loadNode target currentNode ListNode.nextNodePtr
      if next ≠ null then do
        let idxNode ← loadNode target currentNode ListNode.nextNodePtr
        let calls ← sortIndexLoop target compareItemsFcn currentNode target.loopFuel calls idxNode
        let next ← loadNode target currentNode ListNode.nextNodePtr
        countedLoop target compareItemsFcn fuel calls next
      else pure calls

theorem sortCurrentLoop_eq (fuel calls current : Nat) :
    sortCurrentLoop target compareItemsFcn fuel calls current =
      (countedLoop target compareItemsFcn fuel calls current >>= fun _ => pure ()) := by
  induction fuel generalizing calls current with
  | zero => rfl
  | succ fuel ih =>
      rw [sortCurrentLoop, countedLoop, bind_assoc]
      congr 1
      funext next
      split
      · simp only [bind_assoc, ih]
      · rfl

/-- Each node is compared with all behind it. -/
theorem countedLoop_spec (hedited : Edited target list nodes state middle cells)
    (hapart : Apart target (list :: nodes))
    (hlinked : Chain.Linked (cells · ListNode.nextNodePtr) null current (current :: rest))
    (hsub : ∀ node ∈ current :: rest, node ∈ nodes) (hlength : rest.length < target.loopFuel)
    (hfuel : rest.length < fuel) :
    (countedLoop target compareItemsFcn fuel calls current).Returns middle fun result after =>
      result = calls + (rest.length + 1) * rest.length / 2 ∧
        ∃ cells', Edited target list nodes state after cells' ∧
        ItemsWritten cells cells' (current :: rest) ∧
        itemsOf cells' (current :: rest) =
          Sequence.exchangeRounds (greater compareItemsFcn) (rest.length + 1) calls
            (itemsOf cells (current :: rest)) := by
  induction rest generalizing current fuel middle calls cells with
  | nil =>
      obtain ⟨fuel, rfl⟩ := Nat.exists_eq_succ_of_ne_zero (by omega : fuel ≠ 0)
      obtain ⟨-, -, hend⟩ := Chain.linked_cons.mp hlinked
      rw [Chain.linked_nil] at hend
      intro depth
      rw [countedLoop, wp_bind]
      refine hedited.wp_loadNode hapart (hsub current List.mem_cons_self) (by norm_num)
        fun after hafter => ?_
      rw [if_neg (by simp [hend])]
      exact ⟨rfl, rfl, cells, hafter, fun _ _ _ => rfl, rfl⟩
  | cons second later ih =>
      obtain ⟨fuel, rfl⟩ := Nat.exists_eq_succ_of_ne_zero (by omega : fuel ≠ 0)
      have hnodup := hlinked.nodup
      obtain ⟨-, -, hrest⟩ := Chain.linked_cons.mp hlinked
      obtain ⟨hnext, hsecond, -⟩ := Chain.linked_cons.mp hrest
      obtain ⟨hcurrent, hsubRest⟩ := List.forall_mem_cons.mp hsub
      have hnot := (List.nodup_cons.mp hnodup).1
      intro depth
      rw [countedLoop, wp_bind]
      refine hedited.wp_loadNode hapart hcurrent (by norm_num) fun _ hedited => ?_
      rw [if_pos (by simpa [hnext] using hsecond), wp_bind]
      refine hedited.wp_loadNode hapart hcurrent (by norm_num) fun _ hedited => ?_
      rw [wp_bind]
      refine (sortIndexLoop_spec hedited hapart hrest hcurrent hnot hsubRest hlength).wp ?_
      rintro _ _ ⟨rfl, exchanged, hedited, hexchanged, hpass⟩
      rw [wp_bind]
      refine hedited.wp_loadNode hapart hcurrent (by norm_num) fun _ hedited => ?_
      have hlinks : ∀ node, exchanged node ListNode.nextNodePtr = cells node ListNode.nextNodePtr :=
        fun node => hexchanged node _ (.inr (by norm_num))
      rw [hlinks, hnext]
      have hlinked' := hrest.congr fun node _ => hlinks node
      rw [hnext] at hlinked'
      rw [List.length_cons] at hlength hfuel
      refine (ih hedited hlinked' hsubRest (by omega) (by omega)).wp ?_
      rintro _ after ⟨rfl, cells', hafter, hwritten, hitems⟩
      refine ⟨rfl, ?_, cells', hafter, fun pointer index houtside => ?_, ?_⟩
      · have hsum := Nat.triangle_succ (later.length + 1)
        simp only [Nat.add_sub_cancel] at hsum
        rw [List.length_cons, hsum, Nat.add_assoc, Nat.add_comm (later.length + 1)]
      · rw [hwritten pointer index (houtside.imp_left fun hmem => ?_),
          hexchanged pointer index houtside]
        exact fun hlater => hmem (List.mem_cons_of_mem _ hlater)
      · have hcount : (itemsOf cells (second :: later)).length = (second :: later).length := by
          simp [itemsOf]
        rw [@itemsOf_cons current (second :: later) cells, List.length_cons,
          Sequence.exchangeRounds_cons, ← hpass, hcount, itemsOf_cons,
          hwritten current _ (.inl hnot), hitems, List.length_cons]

/-- `TbxListSortItems` with valid arguments and its number of comparisons. -/
def countedSort (target : Target) (list : Nat) (compareItemsFcn : CompareItems) : Code Nat := do
  enterCritical
  let currentNode ← load target list TbxList.firstNodePtr
  let calls ← countedLoop target compareItemsFcn target.loopFuel 0 currentNode
  leaveCritical
  pure calls

theorem tbxListSortItems_eq (hlist : list ≠ null) :
    tbxListSortItems target list (some compareItemsFcn) =
      (countedSort target list compareItemsFcn >>= fun _ => pure ()) := by
  rw [tbxListSortItems, decide_eq_true hlist]
  simp only [if_pos hlist, countedSort, sortCurrentLoop_eq, bind_assoc]
  rfl

theorem countedSort_spec (hedited : Edited target list nodes state middle cells)
    (hcells : ListCells target cells list nodes) (hnodes : nodes ≠ []) :
    (countedSort target list compareItemsFcn).Returns middle fun result after =>
      result = nodes.length * (nodes.length - 1) / 2 ∧
        ∃ cells', Edited target list nodes state after cells' ∧
        ItemsWritten cells cells' nodes ∧
        itemsOf cells' nodes =
          Sequence.exchangeSort (greater compareItemsFcn) (itemsOf cells nodes) := by
  obtain ⟨current, rest, rfl⟩ := List.exists_cons_of_ne_nil hnodes
  have hlength := hcells.length_lt
  rw [List.length_cons] at hlength
  have hlinked := hcells.shape.links.forward
  have hfirst : cells list TbxList.firstNodePtr = current := hcells.shape.links.first_eq
  intro depth
  rw [countedSort, wp_bind, wp_enterCritical, wp_bind]
  refine hedited.wp_load hcells.apart (by norm_num) ?_
  rw [hfirst] at hlinked ⊢
  rw [wp_bind]
  refine (countedLoop_spec hedited hcells.apart hlinked (fun _ hnode => hnode)
    (by omega) (by omega)).wp ?_
  rintro _ after ⟨rfl, cells', hafter, hwritten, hitems⟩
  simp only [wp_bind, wp_leaveCritical, wp_pure]
  refine ⟨trivial, Nat.zero_add _, cells', hafter, hwritten, ?_⟩
  rw [hitems, Sequence.exchangeSort]
  simp [itemsOf]

theorem tbxListSortItems_spec (hedited : Edited target list nodes state middle cells)
    (hcells : ListCells target cells list nodes) (hnodes : nodes ≠ []) :
    (tbxListSortItems target list (some compareItemsFcn)).Returns middle fun _ after =>
      ∃ cells', Edited target list nodes state after cells' ∧ ListShape cells' list nodes ∧
        itemsOf cells' nodes =
          Sequence.exchangeSort (greater compareItemsFcn) (itemsOf cells nodes) := by
  rw [tbxListSortItems_eq (hcells.apart.ne_null list List.mem_cons_self)]
  apply (countedSort_spec hedited hcells hnodes).bind
  rintro _ after ⟨-, cells', hafter, hwritten, hitems⟩
  apply (returns_pure ()).mpr
  exact ⟨cells', hafter, hwritten.shape hcells.shape hcells.list_notMem, hitems⟩

/-- Sorting an empty list reads a link through the `NULL` pointer. -/
theorem tbxListSortItems_empty (hlist : list ≠ null)
    (hfirst : state.mem (target.field list TbxList.firstNodePtr) = null) :
    (tbxListSortItems target list (some compareItemsFcn)).run depth state =
      .faulted .nullDereference (state.emit (.nodeAccess null)) := by
  have hload : (load target list TbxList.firstNodePtr).Evaluates state null state :=
    evaluates_load hlist hfirst
  rw [tbxListSortItems, (evaluates_tbxAssert (decide_eq_true hlist)).run_bind,
    (evaluates_tbxAssert Option.isSome_some).run_bind, if_pos hlist]
  -- Behind the start of the section the first access already faults.
  change (load target list TbxList.firstNodePtr >>= _).run (depth + 1) state = _
  rw [hload.run_bind]
  rfl

end MicroTbx

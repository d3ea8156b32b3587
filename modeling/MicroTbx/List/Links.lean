import MicroTbx.List.Cells

/-! # Linking and unlinking nodes

The critical sections that insert a node do one thing in four ways, told apart
by what is in front of the new node and what behind it; the four cases of a
removal do one thing likewise. Each of them is followed cell by cell, and what
it leaves is again a list in both directions.
-/

namespace MicroTbx

open Program

/-- What linking a new node between two parts of a list does to the cells. -/
structure Inserted (cells after : Cells) (list node : Nat) (front back : List Nat) : Prop where
  count : after list TbxList.nodeCount = cells list TbxList.nodeCount + 1
  first : after list TbxList.firstNodePtr = front.headD node
  last : after list TbxList.lastNodePtr = back.getLastD node
  nextNode : after node ListNode.nextNodePtr = back.headD null
  prevNode : after node ListNode.prevNodePtr = front.getLastD null
  next : ∀ other ∈ front ++ back, after other ListNode.nextNodePtr =
    if front.getLast? = some other then node else cells other ListNode.nextNodePtr
  prev : ∀ other ∈ front ++ back, after other ListNode.prevNodePtr =
    if back.head? = some other then node else cells other ListNode.prevNodePtr
  items : ∀ other ∈ front ++ node :: back,
    after other ListNode.itemPtr = cells other ListNode.itemPtr

/-- What taking a node out from between two parts does to the cells. The nodes
are counted later. -/
structure Unlinked (cells after : Cells) (list : Nat) (front back : List Nat) : Prop where
  count : after list TbxList.nodeCount = cells list TbxList.nodeCount
  first : after list TbxList.firstNodePtr = (front ++ back).headD null
  last : after list TbxList.lastNodePtr = (front ++ back).getLastD null
  next : ∀ other ∈ front ++ back, after other ListNode.nextNodePtr =
    if front.getLast? = some other then back.headD null else cells other ListNode.nextNodePtr
  prev : ∀ other ∈ front ++ back, after other ListNode.prevNodePtr =
    if back.head? = some other then front.getLastD null else cells other ListNode.prevNodePtr
  items : ∀ other ∈ front ++ back, after other ListNode.itemPtr = cells other ListNode.itemPtr

variable {target : Target} {list node ref : Nat} {nodes front back : List Nat}
  {state middle : State} {cells cells' : Cells}

theorem Inserted.shape (hinserted : Inserted cells cells' list node front back)
    (hshape : ListShape cells list (front ++ back)) (hne : node ≠ null) :
    ListShape cells' list (front ++ node :: back) where
  count := by
    rw [hinserted.count, hshape.count]
    simp [Nat.add_assoc]
  links := hshape.links.insert hne hinserted.nextNode hinserted.prevNode hinserted.next
    hinserted.prev hinserted.first hinserted.last

theorem Unlinked.shape (hunlinked : Unlinked cells cells' list front back)
    (hshape : ListShape cells list (front ++ node :: back)) (hlist : list ∉ front ++ back) :
    ListShape (cells'.set list TbxList.nodeCount (cells' list TbxList.nodeCount - 1)) list
      (front ++ back) where
  count := by
    rw [Cells.set_self, hunlinked.count, hshape.count]
    simp
  links := by
    have hlinks := hshape.links.remove hunlinked.next hunlinked.prev hunlinked.first hunlinked.last
    have hother : ∀ other ∈ front ++ back, other ≠ list := fun other hother =>
      ne_of_mem_of_not_mem hother hlist
    rw [Cells.set_of_ne (.inr (by norm_num)), Cells.set_of_ne (.inr (by norm_num))]
    exact hlinks.congr (fun other hmem => Cells.set_of_ne (.inl (hother other hmem)))
      fun other hmem => Cells.set_of_ne (.inl (hother other hmem))

/-- The links of a list do not depend on the items. -/
theorem ListShape.congr (hshape : ListShape cells list nodes)
    (hheader : ∀ i < 3, cells' list i = cells list i)
    (hnext : ∀ node ∈ nodes, cells' node ListNode.nextNodePtr = cells node ListNode.nextNodePtr)
    (hprev : ∀ node ∈ nodes, cells' node ListNode.prevNodePtr = cells node ListNode.prevNodePtr) :
    ListShape cells' list nodes where
  count := by rw [hheader _ (by norm_num), hshape.count]
  links := by
    rw [hheader _ (by norm_num), hheader _ (by norm_num)]
    exact hshape.links.congr hnext hprev

theorem itemsOf_congr
    (hitems : ∀ node ∈ nodes, cells' node ListNode.itemPtr = cells node ListNode.itemPtr) :
    itemsOf cells' nodes = itemsOf cells nodes :=
  List.map_congr_left hitems

@[simp] theorem itemsOf_append :
    itemsOf cells (front ++ back) = itemsOf cells front ++ itemsOf cells back :=
  List.map_append

@[simp] theorem itemsOf_cons :
    itemsOf cells (node :: nodes) = cells node ListNode.itemPtr :: itemsOf cells nodes := rfl

/-! ## Inserting -/

section Inserting

/-- A node that is ready to be linked into a list. -/
structure Ready (target : Target) (cells : Cells) (list node : Nat) (nodes : List Nat) : Prop where
  apart : Apart target (list :: node :: nodes)
  shape : ListShape cells list nodes
  nodup : (list :: node :: nodes).Nodup
  prev : cells node ListNode.prevNodePtr = null
  next : cells node ListNode.nextNodePtr = null
  length_lt : nodes.length + 1 < 2 ^ target.sizeBits

theorem Ready.others (hready : Ready target cells list node nodes) :
    node ≠ list ∧ ∀ other ∈ nodes, other ≠ list ∧ other ≠ node := by
  obtain ⟨hlist, hnode⟩ := List.nodup_cons.mp hready.nodup
  rw [List.mem_cons, not_or] at hlist
  refine ⟨Ne.symm hlist.1, fun other hother => ⟨?_, ?_⟩⟩
  · exact ne_of_mem_of_not_mem hother hlist.2
  · exact ne_of_mem_of_not_mem hother (List.nodup_cons.mp hnode).1

theorem Ready.ne_list (hready : Ready target cells list node (front ++ back)) :
    ∀ other ∈ front ++ node :: back, other ≠ list := by
  obtain ⟨hne, hothers⟩ := hready.others
  intro other hother
  rcases List.mem_append.mp hother with hfront | hback
  · exact (hothers other (List.mem_append_left _ hfront)).1
  · rcases List.mem_cons.mp hback with rfl | hrest
    · exact hne
    · exact (hothers other (List.mem_append_right _ hrest)).1

theorem linkFront_spec (hedited : Edited target list (node :: nodes) state middle cells)
    (hready : Ready target cells list node nodes) :
    (linkFront target list node).Returns middle fun _ after =>
      ∃ cells', Edited target list (node :: nodes) state after cells' ∧
        Inserted cells cells' list node [] nodes := by
  have hobjects := @Ready.ne_list target list node [] nodes cells hready
  obtain ⟨hne, hothers⟩ := hready.others
  obtain ⟨hapart, hshape, hnodup, hprev, hnext, hlt⟩ := hready
  have hcount := hshape.count
  have hfirst := hshape.links.first_eq
  have hlast := hshape.links.last_eq
  intro depth
  simp only [linkFront, wp_bind_eq, wp_ite_eq, wp_enterCritical]
  refine hedited.wp_load hapart (by norm_num) ?_
  cases nodes with
  | nil =>
      rw [if_neg (by simp [hfirst])]
      refine hedited.wp_store hapart (by norm_num) fun _ hedited => ?_
      refine hedited.wp_store hapart (by norm_num) fun _ hedited => ?_
      refine hedited.wp_incrementNodeCount hapart ?_ fun after hedited => ?_
      · simpa [Cells.set, hcount] using hlt
      refine wp_leaveCritical.mpr ⟨rfl, _, hedited, ?_⟩
      constructor <;> simp [Cells.set, hne, hprev, hnext]
  | cons first rest =>
      rw [List.headD_cons] at hfirst
      rw [List.getLastD_cons] at hlast
      have hfirstNe : first ≠ null := (Chain.linked_cons.mp hshape.links.forward).2.1
      obtain ⟨hfirstList, hfirstNode⟩ := hothers first List.mem_cons_self
      rw [if_pos (by rw [hfirst]; exact hfirstNe)]
      refine hedited.wp_load hapart (by norm_num) ?_
      refine wp_tbxAssert_of (by simp [hcount]) ?_
      refine hedited.wp_load hapart (by norm_num) ?_
      refine hedited.wp_storeNode hapart List.mem_cons_self (by norm_num) fun _ hedited => ?_
      refine hedited.wp_loadNode hapart List.mem_cons_self (by norm_num) fun _ hedited => ?_
      rw [Cells.set_self, hfirst]
      refine hedited.wp_storeNode hapart (by simp) (by norm_num) fun _ hedited => ?_
      refine hedited.wp_store hapart (by norm_num) fun _ hedited => ?_
      refine hedited.wp_incrementNodeCount hapart ?_ fun after hedited => ?_
      · simpa [Cells.set, hcount, hne.symm, hfirstList.symm] using hlt
      refine wp_leaveCritical.mpr ⟨rfl, _, hedited, ?_⟩
      constructor
      · simp [Cells.set, hne.symm, hfirstList.symm]
      · simp [Cells.set]
      · rw [List.getLastD_cons]
        simp [Cells.set, hne.symm, hfirstList.symm, hlast]
      · simp [Cells.set, hne, hfirstNode.symm, hfirst]
      · simp [Cells.set, hne, hfirstNode.symm, hprev]
      · intro other hother
        obtain ⟨hlist, hnode⟩ := hothers other hother
        simp [Cells.set, hlist, hnode]
      · intro other hother
        obtain ⟨hlist, hnode⟩ := hothers other hother
        simp [Cells.set, hlist, hnode, @eq_comm _ first other]
      · intro other hother
        simp [Cells.set, hobjects other hother]

theorem linkBack_spec (hedited : Edited target list (node :: nodes) state middle cells)
    (hready : Ready target cells list node nodes) :
    (linkBack target list node).Returns middle fun _ after =>
      ∃ cells', Edited target list (node :: nodes) state after cells' ∧
        Inserted cells cells' list node nodes [] := by
  have hobjects := @Ready.ne_list target list node nodes [] cells (by rwa [List.append_nil])
  obtain ⟨hne, hothers⟩ := hready.others
  obtain ⟨hapart, hshape, hnodup, hprev, hnext, hlt⟩ := hready
  have hcount := hshape.count
  have hfirst := hshape.links.first_eq
  have hlast := hshape.links.last_eq
  intro depth
  simp only [linkBack, wp_bind_eq, wp_ite_eq, wp_enterCritical]
  refine hedited.wp_load hapart (by norm_num) ?_
  rcases List.eq_nil_or_concat nodes with rfl | ⟨front, last, rfl⟩
  · rw [if_neg (by simp [hfirst])]
    refine hedited.wp_store hapart (by norm_num) fun _ hedited => ?_
    refine hedited.wp_store hapart (by norm_num) fun _ hedited => ?_
    refine hedited.wp_incrementNodeCount hapart ?_ fun after hedited => ?_
    · simpa [Cells.set, hcount] using hlt
    refine wp_leaveCritical.mpr ⟨rfl, _, hedited, ?_⟩
    constructor <;> simp [Cells.set, hne, hprev, hnext]
  · rw [List.concat_eq_append] at *
    have hlastMem : last ∈ front ++ [last] := List.mem_append_right _ List.mem_cons_self
    have hfirstNe : cells list TbxList.firstNodePtr ≠ null :=
      mt hshape.links.forward.nil_iff.mpr (by simp)
    obtain ⟨hlastList, hlastNode⟩ := hothers last hlastMem
    rw [List.getLastD_concat] at hlast
    rw [if_pos hfirstNe]
    refine hedited.wp_load hapart (by norm_num) ?_
    refine wp_tbxAssert_of (by simp [hcount]) ?_
    refine hedited.wp_load hapart (by norm_num) ?_
    refine hedited.wp_storeNode hapart List.mem_cons_self (by norm_num) fun _ hedited => ?_
    refine hedited.wp_loadNode hapart List.mem_cons_self (by norm_num) fun _ hedited => ?_
    rw [Cells.set_self, hlast]
    refine hedited.wp_storeNode hapart (List.mem_cons_of_mem _ hlastMem) (by norm_num)
      fun _ hedited => ?_
    refine hedited.wp_store hapart (by norm_num) fun _ hedited => ?_
    refine hedited.wp_incrementNodeCount hapart ?_ fun after hedited => ?_
    · simpa [Cells.set, hcount, hne.symm, hlastList.symm] using hlt
    refine wp_leaveCritical.mpr ⟨rfl, _, hedited, ?_⟩
    constructor
    · simp [Cells.set, hne.symm, hlastList.symm]
    · cases front <;> simp [Cells.set, hne.symm, hlastList.symm, hfirst]
    · simp [Cells.set]
    · simp [Cells.set, hne, hlastNode.symm, hnext]
    · simp [Cells.set, hne, hlastNode.symm, hlast]
    · intro other hother
      rw [List.append_nil] at hother
      obtain ⟨hlist, hnode⟩ := hothers other hother
      simp [Cells.set, hlist, hnode, @eq_comm _ last other]
    · intro other hother
      rw [List.append_nil] at hother
      obtain ⟨hlist, hnode⟩ := hothers other hother
      simp [Cells.set, hlist, hnode]
    · intro other hother
      simp [Cells.set, hobjects other hother]

theorem linkBefore_spec
    (hedited : Edited target list (node :: (front ++ ref :: back)) state middle cells)
    (hready : Ready target cells list node (front ++ ref :: back)) :
    (linkBefore target list node ref).Returns middle fun _ after =>
      ∃ cells', Edited target list (node :: (front ++ ref :: back)) state after cells' ∧
        Inserted cells cells' list node front (ref :: back) := by
  have hobjects := hready.ne_list
  obtain ⟨hne, hothers⟩ := hready.others
  obtain ⟨hapart, hshape, hnodup, hprev, hnext, hlt⟩ := hready
  have hcount := hshape.count
  have hfirst := hshape.links.first_eq
  have hlast := hshape.links.last_eq
  have hrefPrev := hshape.links.prev_eq
  have hrefMem : ref ∈ front ++ ref :: back := List.mem_append_cons_self
  obtain ⟨hrefList, hrefNode⟩ := hothers ref hrefMem
  intro depth
  simp only [linkBefore, wp_bind_eq, wp_ite_eq, wp_enterCritical]
  refine hedited.wp_load hapart (by norm_num) ?_
  rcases List.eq_nil_or_concat front with rfl | ⟨earlier, before, rfl⟩
  · rw [List.nil_append, List.headD_cons] at hfirst
    rw [List.nil_append, List.getLastD_cons] at hlast
    rw [if_pos hfirst.symm]
    refine hedited.wp_load hapart (by norm_num) ?_
    refine hedited.wp_storeNode hapart List.mem_cons_self (by norm_num) fun _ hedited => ?_
    refine hedited.wp_loadNode hapart List.mem_cons_self (by norm_num) fun _ hedited => ?_
    rw [Cells.set_self, hfirst]
    refine hedited.wp_storeNode hapart (List.mem_cons_of_mem _ hrefMem) (by norm_num)
      fun _ hedited => ?_
    refine hedited.wp_store hapart (by norm_num) fun _ hedited => ?_
    refine hedited.wp_incrementNodeCount hapart ?_ fun after hedited => ?_
    · simpa [Cells.set, hcount, hne.symm, hrefList.symm] using hlt
    refine wp_leaveCritical.mpr ⟨rfl, _, hedited, ?_⟩
    constructor
    · simp [Cells.set, hne.symm, hrefList.symm]
    · simp [Cells.set]
    · rw [List.getLastD_cons]
      simp [Cells.set, hne.symm, hrefList.symm, hlast]
    · simp [Cells.set, hne, hrefNode.symm, hfirst]
    · simp [Cells.set, hne, hrefNode.symm, hprev]
    · intro other hother
      obtain ⟨hlist, hnode⟩ := hothers other hother
      simp [Cells.set, hlist, hnode]
    · intro other hother
      obtain ⟨hlist, hnode⟩ := hothers other hother
      simp [Cells.set, hlist, hnode, @eq_comm _ ref other]
    · intro other hother
      simp [Cells.set, hobjects other hother]
  · rw [List.concat_eq_append] at *
    have hbeforeMem : before ∈ earlier ++ [before] ++ ref :: back :=
      List.mem_append_left _ (List.mem_append_right _ List.mem_cons_self)
    obtain ⟨hbeforeList, hbeforeNode⟩ := hothers before hbeforeMem
    have hbeforeNull := hapart.ne_null before (by simp)
    have hapartNodes := (List.nodup_append.mp hshape.links.nodup).2.2
    have hbeforeRef : before ≠ ref :=
      hapartNodes before (List.mem_append_right _ List.mem_cons_self) ref List.mem_cons_self
    have hrefFirst : ref ≠ cells list TbxList.firstNodePtr := by
      rw [hfirst]
      intro heq
      cases earlier with
      | nil => exact hbeforeRef heq.symm
      | cons head tail => exact hapartNodes head List.mem_cons_self ref List.mem_cons_self heq.symm
    rw [List.getLastD_concat] at hrefPrev
    rw [@Chain.getLastD_append_cons _ _ _ _ _ node] at hlast
    rw [if_neg hrefFirst]
    refine hedited.wp_loadNode hapart (List.mem_cons_of_mem _ hrefMem) (by norm_num)
      fun _ hedited => ?_
    refine wp_tbxAssert_of (decide_eq_true (hrefPrev ▸ hbeforeNull)) ?_
    refine hedited.wp_loadNode hapart (List.mem_cons_of_mem _ hrefMem) (by norm_num)
      fun _ hedited => ?_
    rw [hrefPrev]
    refine hedited.wp_storeNode hapart List.mem_cons_self (by norm_num) fun _ hedited => ?_
    refine hedited.wp_storeNode hapart List.mem_cons_self (by norm_num) fun _ hedited => ?_
    refine hedited.wp_loadNode hapart List.mem_cons_self (by norm_num) fun _ hedited => ?_
    rw [Cells.set_of_ne (.inr (by norm_num)), Cells.set_self]
    refine hedited.wp_storeNode hapart (List.mem_cons_of_mem _ hbeforeMem) (by norm_num)
      fun _ hedited => ?_
    refine hedited.wp_loadNode hapart List.mem_cons_self (by norm_num) fun _ hedited => ?_
    rw [Cells.set_of_ne (.inl hbeforeNode.symm), Cells.set_self]
    refine hedited.wp_storeNode hapart (List.mem_cons_of_mem _ hrefMem) (by norm_num)
      fun _ hedited => ?_
    refine hedited.wp_incrementNodeCount hapart ?_ fun after hedited => ?_
    · simpa [Cells.set, hcount, hne.symm, hrefList.symm, hbeforeList.symm] using hlt
    refine wp_leaveCritical.mpr ⟨rfl, _, hedited, ?_⟩
    constructor
    · simp [Cells.set, hne.symm, hrefList.symm, hbeforeList.symm]
    · cases earlier <;> simp [Cells.set, hne.symm, hrefList.symm, hbeforeList.symm, hfirst]
    · rw [← hlast]
      simp [Cells.set, hne.symm, hrefList.symm, hbeforeList.symm]
    · simp [Cells.set, hne, hrefNode.symm, hbeforeNode.symm]
    · simp [Cells.set, hne, hrefNode.symm, hbeforeNode.symm]
    · intro other hother
      obtain ⟨hlist, hnode⟩ := hothers other hother
      simp [Cells.set, hlist, hnode, @eq_comm _ before other]
    · intro other hother
      obtain ⟨hlist, hnode⟩ := hothers other hother
      simp [Cells.set, hlist, hnode, @eq_comm _ ref other]
    · intro other hother
      simp [Cells.set, hobjects other hother]

theorem linkAfter_spec
    (hedited : Edited target list (node :: (front ++ ref :: back)) state middle cells)
    (hready : Ready target cells list node (front ++ ref :: back)) :
    (linkAfter target list node ref).Returns middle fun _ after =>
      ∃ cells', Edited target list (node :: (front ++ ref :: back)) state after cells' ∧
        Inserted cells cells' list node (front ++ [ref]) back := by
  have hobjects := @Ready.ne_list target list node (front ++ [ref]) back cells
    (by rwa [List.append_assoc])
  obtain ⟨hne, hothers⟩ := hready.others
  obtain ⟨hapart, hshape, hnodup, hprev, hnext, hlt⟩ := hready
  have hcount := hshape.count
  have hfirst := hshape.links.first_eq
  have hlast := hshape.links.last_eq
  have hrefNext := hshape.links.next_eq
  have hrefMem : ref ∈ front ++ ref :: back := List.mem_append_cons_self
  obtain ⟨hrefList, hrefNode⟩ := hothers ref hrefMem
  have hsplit : ∀ other ∈ front ++ [ref] ++ back, other ∈ front ++ ref :: back := by
    simp
  intro depth
  simp only [linkAfter, wp_bind_eq, wp_ite_eq, wp_enterCritical]
  refine hedited.wp_load hapart (by norm_num) ?_
  cases back with
  | nil =>
      rw [List.getLastD_concat] at hlast
      rw [if_pos hlast.symm]
      refine hedited.wp_load hapart (by norm_num) ?_
      refine hedited.wp_storeNode hapart List.mem_cons_self (by norm_num) fun _ hedited => ?_
      refine hedited.wp_loadNode hapart List.mem_cons_self (by norm_num) fun _ hedited => ?_
      rw [Cells.set_self, hlast]
      refine hedited.wp_storeNode hapart (List.mem_cons_of_mem _ hrefMem) (by norm_num)
        fun _ hedited => ?_
      refine hedited.wp_store hapart (by norm_num) fun _ hedited => ?_
      refine hedited.wp_incrementNodeCount hapart ?_ fun after hedited => ?_
      · simpa [Cells.set, hcount, hne.symm, hrefList.symm] using hlt
      refine wp_leaveCritical.mpr ⟨rfl, _, hedited, ?_⟩
      constructor
      · simp [Cells.set, hne.symm, hrefList.symm]
      · cases front <;> simp [Cells.set, hne.symm, hrefList.symm, hfirst]
      · simp [Cells.set]
      · simp [Cells.set, hne, hrefNode.symm, hnext]
      · simp [Cells.set, hne, hrefNode.symm, hlast]
      · intro other hother
        obtain ⟨hlist, hnode⟩ := hothers other (hsplit other hother)
        simp [Cells.set, hlist, hnode, @eq_comm _ ref other]
      · intro other hother
        obtain ⟨hlist, hnode⟩ := hothers other (hsplit other hother)
        simp [Cells.set, hlist, hnode]
      · intro other hother
        simp [Cells.set, hobjects other hother]
  | cons behind later =>
      have hbehindMem : behind ∈ front ++ ref :: behind :: later :=
        List.mem_append_right _ (List.mem_cons_of_mem _ List.mem_cons_self)
      obtain ⟨hbehindList, hbehindNode⟩ := hothers behind hbehindMem
      have hbehindNull := hapart.ne_null behind (by simp)
      have hrefNotBack := (List.nodup_cons.mp (List.nodup_append.mp hshape.links.nodup).2.1).1
      have hbehindRef : behind ≠ ref := fun heq => hrefNotBack (heq ▸ List.mem_cons_self)
      rw [List.append_cons, @Chain.getLastD_append_cons _ _ _ _ _ node] at hlast
      have hrefLast : ref ≠ cells list TbxList.lastNodePtr := by
        rw [hlast, List.getLastD_cons]
        exact (ne_of_mem_of_not_mem List.getLastD_mem_cons hrefNotBack).symm
      rw [List.headD_cons] at hrefNext
      rw [if_neg hrefLast]
      refine hedited.wp_loadNode hapart (List.mem_cons_of_mem _ hrefMem) (by norm_num)
        fun _ hedited => ?_
      refine wp_tbxAssert_of (decide_eq_true (hrefNext ▸ hbehindNull)) ?_
      refine hedited.wp_loadNode hapart (List.mem_cons_of_mem _ hrefMem) (by norm_num)
        fun _ hedited => ?_
      rw [if_pos (hrefNext ▸ hbehindNull)]
      refine hedited.wp_storeNode hapart List.mem_cons_self (by norm_num) fun _ hedited => ?_
      refine hedited.wp_loadNode hapart (List.mem_cons_of_mem _ hrefMem) (by norm_num)
        fun _ hedited => ?_
      rw [Cells.set_of_ne (.inl hrefNode), hrefNext]
      refine hedited.wp_storeNode hapart List.mem_cons_self (by norm_num) fun _ hedited => ?_
      refine hedited.wp_loadNode hapart List.mem_cons_self (by norm_num) fun _ hedited => ?_
      rw [Cells.set_of_ne (.inr (by norm_num)), Cells.set_self]
      refine hedited.wp_storeNode hapart (List.mem_cons_of_mem _ hrefMem) (by norm_num)
        fun _ hedited => ?_
      refine hedited.wp_loadNode hapart List.mem_cons_self (by norm_num) fun _ hedited => ?_
      rw [Cells.set_of_ne (.inl hrefNode.symm), Cells.set_self]
      refine hedited.wp_storeNode hapart (List.mem_cons_of_mem _ hbehindMem) (by norm_num)
        fun _ hedited => ?_
      refine hedited.wp_incrementNodeCount hapart ?_ fun after hedited => ?_
      · simpa [Cells.set, hcount, hne.symm, hrefList.symm, hbehindList.symm] using hlt
      refine wp_leaveCritical.mpr ⟨rfl, _, hedited, ?_⟩
      constructor
      · simp [Cells.set, hne.symm, hrefList.symm, hbehindList.symm]
      · cases front <;> simp [Cells.set, hne.symm, hrefList.symm, hbehindList.symm, hfirst]
      · rw [← hlast]
        simp [Cells.set, hne.symm, hrefList.symm, hbehindList.symm]
      · simp [Cells.set, hne, hrefNode.symm, hbehindNode.symm]
      · simp [Cells.set, hne, hrefNode.symm, hbehindNode.symm]
      · intro other hother
        obtain ⟨hlist, hnode⟩ := hothers other (hsplit other hother)
        simp [Cells.set, hlist, hnode, @eq_comm _ ref other]
      · intro other hother
        obtain ⟨hlist, hnode⟩ := hothers other (hsplit other hother)
        simp [Cells.set, hlist, hnode, @eq_comm _ behind other]
      · intro other hother
        simp [Cells.set, hobjects other hother]

end Inserting

/-! ## Removing -/

section Removing

/-- A node that is in a list. -/
structure Member (target : Target) (cells : Cells) (list node : Nat) (front back : List Nat) :
    Prop where
  apart : Apart target (list :: (front ++ node :: back))
  shape : ListShape cells list (front ++ node :: back)
  list_notMem : list ∉ front ++ node :: back

theorem Member.others (hmember : Member target cells list node front back) :
    node ≠ list ∧ ∀ other ∈ front ++ back, other ≠ list ∧ other ≠ node ∧ other ≠ null := by
  have hsub : ∀ other ∈ front ++ back, other ∈ front ++ node :: back := by
    intro other hother
    rcases List.mem_append.mp hother with hfront | hback
    · exact List.mem_append_left _ hfront
    · exact List.mem_append_right _ (List.mem_cons_of_mem _ hback)
  have hnode : node ∉ front ++ back :=
    (List.nodup_cons.mp (List.nodup_middle.mp hmember.shape.links.nodup)).1
  refine ⟨ne_of_mem_of_not_mem List.mem_append_cons_self hmember.list_notMem,
    fun other hother => ⟨?_, ?_, ?_⟩⟩
  · exact ne_of_mem_of_not_mem (hsub other hother) hmember.list_notMem
  · exact ne_of_mem_of_not_mem hother hnode
  · exact hmember.apart.ne_null other (List.mem_cons_of_mem _ (hsub other hother))

theorem unlinkOnly_spec (hedited : Edited target list [node] state middle cells)
    (hmember : Member target cells list node [] []) :
    (unlinkOnly target list node).Returns middle fun _ after =>
      ∃ cells', Edited target list [node] state after cells' ∧
        Unlinked cells cells' list [] [] := by
  obtain ⟨hapart, hshape, hlist⟩ := hmember
  have hcount := hshape.count
  have hfirst : cells list TbxList.firstNodePtr = node := hshape.links.first_eq
  have hlast : cells list TbxList.lastNodePtr = node := hshape.links.last_eq
  intro depth
  simp only [unlinkOnly, wp_bind_eq]
  refine hedited.wp_load hapart (by norm_num) ?_
  refine wp_tbxAssert_of (decide_eq_true hfirst.symm) ?_
  refine hedited.wp_load hapart (by norm_num) ?_
  refine wp_tbxAssert_of (decide_eq_true hlast.symm) ?_
  refine hedited.wp_load hapart (by norm_num) ?_
  refine wp_tbxAssert_of (decide_eq_true hcount) ?_
  refine hedited.wp_store hapart (by norm_num) fun _ hedited => ?_
  refine hedited.wp_store hapart (by norm_num) fun after hedited => ?_
  refine ⟨rfl, _, hedited, ?_⟩
  constructor <;> simp [Cells.set]

theorem unlinkFirst_spec {next : Nat}
    (hedited : Edited target list (node :: next :: back) state middle cells)
    (hmember : Member target cells list node [] (next :: back)) :
    (unlinkFirst target list node).Returns middle fun _ after =>
      ∃ cells', Edited target list (node :: next :: back) state after cells' ∧
        Unlinked cells cells' list [] (next :: back) := by
  obtain ⟨hne, hothers⟩ := hmember.others
  obtain ⟨hapart, hshape, hlist⟩ := hmember
  obtain ⟨hnextList, hnextNode, hnextNull⟩ := hothers next List.mem_cons_self
  have hcount := hshape.count
  have hfirst : cells list TbxList.firstNodePtr = node := hshape.links.first_eq
  have hlast := hshape.links.last_eq
  have hnext : cells node ListNode.nextNodePtr = next := hshape.links.next_eq
  intro depth
  simp only [unlinkFirst, wp_bind_eq]
  refine hedited.wp_load hapart (by norm_num) ?_
  refine wp_tbxAssert_of (decide_eq_true hfirst.symm) ?_
  refine hedited.wp_loadNode hapart List.mem_cons_self (by norm_num) fun _ hedited => ?_
  rw [hnext]
  refine wp_tbxAssert_of (decide_eq_true hnextNull) ?_
  refine hedited.wp_load hapart (by norm_num) ?_
  refine wp_tbxAssert_of (by simp [hcount]) ?_
  refine hedited.wp_loadNode hapart List.mem_cons_self (by norm_num) fun _ hedited => ?_
  rw [hnext]
  refine hedited.wp_store hapart (by norm_num) fun _ hedited => ?_
  refine hedited.wp_load hapart (by norm_num) ?_
  rw [Cells.set_self]
  refine hedited.wp_storeNode hapart (by simp) (by norm_num) fun after hedited => ?_
  refine ⟨rfl, _, hedited, ?_⟩
  constructor
  · simp [Cells.set, hnextList.symm]
  · simp [Cells.set, hnextList.symm]
  · rw [List.nil_append, List.getLastD_cons, List.getLastD_cons] at hlast
    rw [List.nil_append, List.getLastD_cons]
    simp [Cells.set, hnextList.symm, hlast]
  · intro other hother
    obtain ⟨hotherList, -, -⟩ := hothers other hother
    simp [Cells.set, hotherList]
  · intro other hother
    obtain ⟨hotherList, -, -⟩ := hothers other hother
    simp [Cells.set, hotherList, @eq_comm _ next other]
  · intro other hother
    obtain ⟨hotherList, -, -⟩ := hothers other hother
    simp [Cells.set, hotherList]

theorem unlinkLast_spec {prev : Nat}
    (hedited : Edited target list (front ++ [prev] ++ [node]) state middle cells)
    (hmember : Member target cells list node (front ++ [prev]) []) :
    (unlinkLast target list node).Returns middle fun _ after =>
      ∃ cells', Edited target list (front ++ [prev] ++ [node]) state after cells' ∧
        Unlinked cells cells' list (front ++ [prev]) [] := by
  obtain ⟨hne, hothers⟩ := hmember.others
  rw [List.append_nil] at hothers
  obtain ⟨hapart, hshape, hlist⟩ := hmember
  have hprevMem : prev ∈ front ++ [prev] := List.mem_append_cons_self
  have hnodeMem : node ∈ front ++ [prev] ++ [node] := List.mem_append_cons_self
  obtain ⟨hprevList, hprevNode, hprevNull⟩ := hothers prev hprevMem
  have hcount := hshape.count
  have hfirst := hshape.links.first_eq
  have hlast := hshape.links.last_eq
  have hprev := hshape.links.prev_eq
  rw [List.getLastD_concat] at hlast hprev
  intro depth
  simp only [unlinkLast, wp_bind_eq]
  refine hedited.wp_load hapart (by norm_num) ?_
  refine wp_tbxAssert_of (decide_eq_true hlast.symm) ?_
  refine hedited.wp_loadNode hapart hnodeMem (by norm_num) fun _ hedited => ?_
  rw [hprev]
  refine wp_tbxAssert_of (decide_eq_true hprevNull) ?_
  refine hedited.wp_load hapart (by norm_num) ?_
  refine wp_tbxAssert_of (by simp [hcount]) ?_
  refine hedited.wp_loadNode hapart hnodeMem (by norm_num) fun _ hedited => ?_
  rw [hprev]
  refine hedited.wp_store hapart (by norm_num) fun _ hedited => ?_
  refine hedited.wp_load hapart (by norm_num) ?_
  rw [Cells.set_self]
  refine hedited.wp_storeNode hapart (List.mem_append_left _ hprevMem) (by norm_num)
    fun after hedited => ?_
  refine ⟨rfl, _, hedited, ?_⟩
  constructor
  · simp [Cells.set, hprevList.symm]
  · cases front <;> simp [Cells.set, hprevList.symm, hfirst]
  · simp [Cells.set, hprevList.symm]
  · intro other hother
    rw [List.append_nil] at hother
    obtain ⟨hotherList, -, -⟩ := hothers other hother
    simp [Cells.set, hotherList, @eq_comm _ prev other]
  · intro other hother
    rw [List.append_nil] at hother
    obtain ⟨hotherList, -, -⟩ := hothers other hother
    simp [Cells.set, hotherList]
  · intro other hother
    rw [List.append_nil] at hother
    obtain ⟨hotherList, -, -⟩ := hothers other hother
    simp [Cells.set, hotherList]

theorem unlinkMiddle_spec {prev next : Nat}
    (hedited : Edited target list (front ++ [prev] ++ node :: next :: back) state middle cells)
    (hmember : Member target cells list node (front ++ [prev]) (next :: back)) :
    (unlinkMiddle target list node).Returns middle fun _ after =>
      ∃ cells', Edited target list (front ++ [prev] ++ node :: next :: back) state after cells' ∧
        Unlinked cells cells' list (front ++ [prev]) (next :: back) := by
  obtain ⟨hne, hothers⟩ := hmember.others
  obtain ⟨hapart, hshape, hlist⟩ := hmember
  have hnodeMem : node ∈ front ++ [prev] ++ node :: next :: back := List.mem_append_cons_self
  have hprevMem : prev ∈ front ++ [prev] := List.mem_append_cons_self
  obtain ⟨hprevList, hprevNode, hprevNull⟩ := hothers prev (List.mem_append_left _ hprevMem)
  obtain ⟨hnextList, hnextNode, hnextNull⟩ := hothers next List.mem_append_cons_self
  have hcount := hshape.count
  have hfirst := hshape.links.first_eq
  have hlast := hshape.links.last_eq
  have hprev := hshape.links.prev_eq
  have hnext : cells node ListNode.nextNodePtr = next := hshape.links.next_eq
  rw [List.getLastD_concat] at hprev
  rw [@Chain.getLastD_append_cons _ _ _ _ _ null, List.getLastD_cons, List.getLastD_cons] at hlast
  intro depth
  simp only [unlinkMiddle, wp_bind_eq]
  refine hedited.wp_loadNode hapart hnodeMem (by norm_num) fun _ hedited => ?_
  rw [hprev]
  refine wp_tbxAssert_of (decide_eq_true hprevNull) ?_
  refine hedited.wp_loadNode hapart hnodeMem (by norm_num) fun _ hedited => ?_
  rw [hnext]
  refine wp_tbxAssert_of (decide_eq_true hnextNull) ?_
  refine hedited.wp_load hapart (by norm_num) ?_
  refine wp_tbxAssert_of (by simp [hcount]; omega) ?_
  refine hedited.wp_loadNode hapart hnodeMem (by norm_num) fun _ hedited => ?_
  rw [hnext]
  refine hedited.wp_loadNode hapart hnodeMem (by norm_num) fun _ hedited => ?_
  rw [hprev]
  refine hedited.wp_storeNode hapart (List.mem_append_left _ hprevMem) (by norm_num)
    fun _ hedited => ?_
  refine hedited.wp_loadNode hapart hnodeMem (by norm_num) fun _ hedited => ?_
  rw [Cells.set_of_ne (.inl hprevNode.symm), hprev]
  refine hedited.wp_loadNode hapart hnodeMem (by norm_num) fun _ hedited => ?_
  rw [Cells.set_of_ne (.inl hprevNode.symm), hnext]
  refine hedited.wp_storeNode hapart (by simp) (by norm_num) fun after hedited => ?_
  refine ⟨rfl, _, hedited, ?_⟩
  constructor
  · simp [Cells.set, hnextList.symm, hprevList.symm]
  · cases front <;> simp [Cells.set, hnextList.symm, hprevList.symm, hfirst]
  · rw [@Chain.getLastD_append_cons _ _ _ _ _ null, List.getLastD_cons]
    simp [Cells.set, hnextList.symm, hprevList.symm, hlast]
  · intro other hother
    simp [Cells.set, @eq_comm _ prev other]
  · intro other hother
    simp [Cells.set, @eq_comm _ next other]
  · intro other hother
    simp [Cells.set]

/-- Which case is taken is decided by the neighbours of the node. -/
theorem unlink_spec
    (hedited : Edited target list (front ++ node :: back) state middle cells)
    (hmember : Member target cells list node front back) :
    (unlink target list node).Returns middle fun _ after =>
      ∃ cells', Edited target list (front ++ node :: back) state after cells' ∧
        Unlinked cells cells' list front back := by
  have hapart := hmember.apart
  have hprev := hmember.shape.links.prev_eq
  have hnext := hmember.shape.links.next_eq
  have hnodeMem : node ∈ front ++ node :: back := List.mem_append_cons_self
  intro depth
  rw [unlink, wp_bind]
  refine hedited.wp_loadNode hapart hnodeMem (by norm_num) fun _ hedited => ?_
  rcases List.eq_nil_or_concat front with rfl | ⟨earlier, prev, rfl⟩
  · rw [List.getLastD_nil] at hprev
    rw [if_pos hprev, wp_bind, wp_bind]
    refine hedited.wp_loadNode hapart hnodeMem (by norm_num) fun _ hedited => ?_
    rw [wp_pure]
    cases back with
    | nil =>
        rw [List.headD_nil] at hnext
        rw [if_pos (decide_eq_true hnext)]
        exact unlinkOnly_spec hedited hmember depth
    | cons next later =>
        have hnextNull : next ≠ null := hapart.ne_null next (by simp)
        rw [List.headD_cons] at hnext
        rw [if_neg (by simpa [hnext] using hnextNull), wp_bind]
        refine hedited.wp_loadNode hapart hnodeMem (by norm_num) fun _ hedited => ?_
        rw [if_pos hprev]
        exact unlinkFirst_spec hedited hmember depth
  · rw [List.concat_eq_append] at *
    rw [List.getLastD_concat] at hprev
    have hprevNull : prev ≠ null := hapart.ne_null prev (by simp)
    rw [if_neg (hprev ▸ hprevNull), wp_bind, wp_pure, if_neg (by simp), wp_bind]
    refine hedited.wp_loadNode hapart hnodeMem (by norm_num) fun _ hedited => ?_
    rw [if_neg (hprev ▸ hprevNull), wp_bind]
    refine hedited.wp_loadNode hapart hnodeMem (by norm_num) fun _ hedited => ?_
    cases back with
    | nil =>
        rw [List.headD_nil] at hnext
        rw [if_pos hnext]
        exact unlinkLast_spec hedited hmember depth
    | cons next later =>
        have hnextNull : next ≠ null := hapart.ne_null next (by simp)
        rw [if_neg (hnext ▸ hnextNull)]
        exact unlinkMiddle_spec hedited hmember depth

/-- The whole critical section of a removal. -/
theorem removeListNode_spec
    (hedited : Edited target list (front ++ node :: back) state middle cells)
    (hmember : Member target cells list node front back)
    (hlt : (front ++ node :: back).length < 2 ^ target.sizeBits) :
    (removeListNode target list node).Returns middle fun _ after =>
      ∃ cells', Edited target list (front ++ node :: back) state after cells' ∧
        ListShape cells' list (front ++ back) ∧
        itemsOf cells' (front ++ back) = itemsOf cells (front ++ back) := by
  have hapart := hmember.apart
  have hothers := hmember.others.2
  intro depth
  rw [removeListNode, wp_bind, wp_enterCritical, wp_bind]
  refine (unlink_spec hedited hmember).wp ?_
  rintro _ _ ⟨cells', hedited, hunlinked⟩
  have hcount : cells' list TbxList.nodeCount = (front ++ node :: back).length :=
    hunlinked.count.trans hmember.shape.count
  rw [wp_bind]
  refine hedited.wp_decrementNodeCount hapart (by simp [hcount]) (hcount ▸ hlt)
    fun after hedited => ?_
  refine wp_leaveCritical.mpr ⟨rfl, _, hedited, hunlinked.shape hmember.shape ?_, ?_⟩
  · exact fun hmem => (hothers list hmem).1 rfl
  · refine itemsOf_congr fun other hother => ?_
    rw [Cells.set_of_ne (.inl (hothers other hother).1), hunlinked.items other hother]

end Removing

end MicroTbx

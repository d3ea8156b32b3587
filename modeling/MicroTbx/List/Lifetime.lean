import MicroTbx.List.Calls

/-! # Creating, clearing and deleting lists

A list is cleared node by node. While that goes on its blocks are in the hands
of the application, those of the nodes that are left in front, so that every
release is one of the pool module. A deletion also releases the header, a
creation starts with a block for it.
-/

namespace MicroTbx

open Program

variable {target : Target} {owner : Ownership} {views : List PoolView}
  {lists rest : List ListView} {view : ListView} {app pool nodes : List Nat}
  {state after : State} {start fuel : Nat} {allowed : Nat → Prop}

/-- A node that is handed out is accessed. -/
theorem ListsAt.access (hlists : ListsAt target owner views lists app state) (node : Nat) :
    ListsAt target owner views lists app (state.emit (.nodeAccess node)) where
  pools := hlists.pools.grow ⟨rfl, rfl, fun _ _ => rfl, rfl, fun _ => rfl,
    fun _ => List.mem_cons_of_mem _⟩ (Nat.dvd_zero _) hlists.pools.heap.allocated_le
  shape := hlists.shape
  holds := hlists.holds
  out := hlists.out

/-! ## Clearing -/

/-- The nodes from `start` on are released. -/
theorem ListsAt.clearLoop (hlists : ListsAt target owner views rest (nodes ++ pool) state)
    (hlinked : Chain.Linked (cellsOf target state.mem · ListNode.nextNodePtr) null start nodes)
    (hholds : ∀ node ∈ nodes, Holds target owner node) (hallowed : ∀ node ∈ nodes, allowed node)
    (hfuel : nodes.length < fuel) :
    (clearLoop target fuel start).Returns state fun _ after =>
      (∃ others, ListsAt target owner others rest pool after) ∧
        Behaves target allowed rest state after := by
  induction nodes generalizing views start fuel state with
  | nil =>
      obtain ⟨fuel, rfl⟩ := Nat.exists_eq_succ_of_ne_zero (by omega : fuel ≠ 0)
      rw [Chain.linked_nil] at hlinked
      rw [MicroTbx.clearLoop, if_neg (by simp [hlinked])]
      exact (returns_pure _).mpr ⟨⟨views, hlists⟩,
        ⟨.refl _ _, .of_eq rfl, .of_log_eq rfl⟩⟩
  | cons node later ih =>
      obtain ⟨fuel, rfl⟩ := Nat.exists_eq_succ_of_ne_zero (by omega : fuel ≠ 0)
      obtain ⟨rfl, hne, hlater⟩ := Chain.linked_cons.mp hlinked
      obtain ⟨hnode, hholdsLater⟩ := List.forall_mem_cons.mp hholds
      obtain ⟨hallowedNode, hallowedLater⟩ := List.forall_mem_cons.mp hallowed
      have hout : start ∈ handedOut state.log :=
        hlists.out.mem_iff.mpr (List.mem_append_right _ List.mem_cons_self)
      have haccess : Behaves target allowed rest state (state.emit (.nodeAccess start)) := by
        refine ⟨.refl _ _, .of_eq rfl, @Traced.of_accesses _ _ _ [start] rfl ?_⟩
        rw [List.forall_mem_singleton]
        exact ⟨hne, hout, hallowedNode⟩
      intro depth
      rw [MicroTbx.clearLoop, if_pos hne, wp_bind, loadNode, wp_bind, wp_emit]
      refine wp_load.mpr ⟨hne, ?_⟩
      rw [wp_bind]
      refine (hlists.access start).release.wp ?_
      rintro _ between ⟨⟨others, hbetween⟩, hkept, hsame, herase, hasserted, hquiet⟩
      have hreleased : Behaves target allowed rest state between :=
        haccess.trans ⟨hsame, .of_eq hasserted, .of_quiet hquiet⟩
      have hlinks : ∀ node ∈ later, cellsOf target between.mem node ListNode.nextNodePtr =
          cellsOf target state.mem node ListNode.nextNodePtr := by
        intro node hmem
        obtain ⟨size, block, -, howner⟩ := hholdsLater node hmem
        exact hkept.data _ _ _ (howner _ (by norm_num)) trivial
      refine (ih hbetween (hlater.congr hlinks) hholdsLater hallowedLater
        (by simpa using hfuel)).wp ?_
      rintro _ after ⟨hafter, hbehaves⟩
      exact ⟨rfl, hafter, hreleased.trans hbehaves⟩

/-- The application holds its blocks in no order. -/
theorem ListsAt.repool (hlists : ListsAt target owner views lists app state)
    (hperm : app.Perm pool) : ListsAt target owner views lists pool state :=
  { hlists with out := hlists.out.trans (hperm.append_left _) }

/-- A block of the application becomes the header of an empty list. -/
theorem ListsAt.adopt {list : Nat} {cells : Cells}
    (hlists : ListsAt target owner views rest (list :: app) state)
    (hholds : Holds target owner list) (hedited : Edited target list [] state after cells)
    (hcount : cells list TbxList.nodeCount = 0) (hfirst : cells list TbxList.firstNodePtr = null)
    (hlast : cells list TbxList.lastNodePtr = null) :
    ListsAt target owner views (⟨list, []⟩ :: rest) app after ∧
      Behaves target allowed rest state after := by
  have hshape : ListShape cells list [] :=
    ⟨hcount, Chain.linked_nil.mpr hfirst, Chain.linked_nil.mpr hlast⟩
  obtain ⟨hafter, hsame, -⟩ := hlists.edit hedited (by simp) (by simpa using hholds) hshape
    (by simp) (.refl _)
  exact ⟨hafter, hsame, .of_eq hedited.asserted_eq, hedited.traced (by simp)⟩

theorem ListsAt.clear (hlists : ListsAt target owner views (view :: rest) app state) :
    (tbxListClear target view.header).Returns state fun _ after =>
      Leaves target view rest app state [] after := by
  have hcells := hlists.listCells List.mem_cons_self
  have hlist := hcells.apart.ne_null view.header List.mem_cons_self
  have hholds : ∀ data ∈ view.blocks, Holds target owner data := fun data hdata =>
    hlists.holds data (mem_blocksOf List.mem_cons_self hdata)
  have hheader := hholds view.header List.mem_cons_self
  have hforget : ListsAt target owner views rest (view.nodes ++ view.header :: app) state :=
    hlists.forget.repool List.perm_middle.symm
  have hown : ∀ node ∈ view.nodes, OwnNode state view.nodes node := fun _ hnode => .inl hnode
  intro depth
  rw [tbxListClear, wp_bind]
  refine wp_tbxAssert_of (decide_eq_true hlist) ?_
  rw [if_pos hlist, wp_bind, wp_enterCritical, wp_bind]
  refine wp_load.mpr ⟨hlist, ?_⟩
  rw [wp_bind]
  refine (hforget.clearLoop hcells.shape.links.forward
    (fun node hnode => hholds node (List.mem_cons_of_mem _ hnode))
    hown hcells.length_lt).wp ?_
  rintro _ between ⟨⟨others, hbetween⟩, hcleared⟩
  have hapart : Apart target [view.header] :=
    hcells.apart.sub fun pointer hpointer => List.mem_singleton.mp hpointer ▸ List.mem_cons_self
  rw [wp_bind]
  refine (Edited.refl between view.header []).wp_store hapart (by norm_num) fun _ hedited => ?_
  rw [wp_bind]
  refine hedited.wp_store hapart (by norm_num) fun _ hedited => ?_
  rw [wp_bind]
  refine hedited.wp_store hapart (by norm_num) fun after hedited => ?_
  obtain ⟨hafter, hbehaves⟩ := hbetween.adopt hheader hedited (by simp [Cells.set])
    (by simp [Cells.set]) (by simp [Cells.set])
  exact wp_leaveCritical.mpr ⟨rfl, hcleared.trans hbehaves, _, _, [], hafter, rfl⟩

theorem ListsAt.delete (hlists : ListsAt target owner views (view :: rest) app state) :
    (tbxListDelete target view.header).Returns state fun _ after =>
      (∃ owner views, ListsAt target owner views rest app after) ∧
        Behaves target (OwnNode state view.nodes) rest state after := by
  have hcells := hlists.listCells List.mem_cons_self
  have hlist := hcells.apart.ne_null view.header List.mem_cons_self
  intro depth
  rw [tbxListDelete, wp_bind]
  refine wp_tbxAssert_of (decide_eq_true hlist) ?_
  rw [if_pos hlist, wp_bind, wp_enterCritical, wp_bind]
  refine hlists.clear.wp ?_
  rintro _ between ⟨hcleared, owner', views', nodes, hbetween, hitems⟩
  obtain rfl : nodes = [] := List.map_eq_nil_iff.mp hitems
  rw [wp_bind]
  refine hbetween.forget.release.wp ?_
  rintro _ after ⟨⟨others, hafter⟩, -, hsame, -, hasserted, hquiet⟩
  exact wp_leaveCritical.mpr ⟨rfl, ⟨_, _, hafter⟩,
    hcleared.trans ⟨hsame, .of_eq hasserted, .of_quiet hquiet⟩⟩

/-! ## Creating -/

/-- The flag of the module is of no concern to the pools. -/
theorem ListsAt.setMemPoolsCreated (hlists : ListsAt target owner views lists app state) :
    ListsAt target owner views lists app state.setMemPoolsCreated where
  pools := ⟨hlists.pools.list, hlists.pools.heap, hlists.pools.log⟩
  shape := hlists.shape
  holds := hlists.holds
  out := hlists.out

/-- A pool for the objects of the module is created or extended. -/
theorem ListsAt.createPool (hlists : ListsAt target owner views lists app state)
    (allowed : Nat → Prop) :
    (tbxMemPoolCreate target 1 (3 * target.word)).Returns state fun status after =>
      ∃ larger others, Creates target owner views state 1 (3 * target.word) status larger others
          after ∧ ListsAt target larger others lists app after ∧
        Behaves target allowed lists state after := by
  have hcreate := (hlists.pools.create Nat.one_pos objectSize_pos objectSize_sound).within
    (Quiet.poolSteps.within_create 1) Quiet.refl Quiet.trans
  refine hcreate.mono ?_
  rintro status after ⟨⟨larger, others, hcreates⟩, hquiet⟩
  obtain ⟨hafter, hsame⟩ := hcreates.listsAt hlists
  exact ⟨larger, others, hcreates, hafter, hsame, (hcreates.pools hlists.pools).2.2.2,
    .of_quiet hquiet⟩

/-- The pools of the first call: an error means that memory is short, and
otherwise there is a free block afterwards, unless this is not the first call. -/
theorem ListsAt.createMemPools (hlists : ListsAt target owner views lists app state)
    (allowed : Nat → Prop) :
    (createMemPools target).Returns state fun errorDetected after =>
      ∃ larger others, ListsAt target larger others lists app after ∧
        Behaves target allowed lists state after ∧
        (errorDetected = true → Exhausted target 2 state) ∧
        (errorDetected = false → after = state ∨
          ∃ view ∈ others, view.blockSize = 3 * target.word ∧ view.Stocked) := by
  have hstart := hlists.setMemPoolsCreated
  have hflag : Behaves target allowed lists state state.setMemPoolsCreated :=
    ⟨.refl _ _, .of_eq rfl, .of_log_eq rfl⟩
  intro depth
  rw [MicroTbx.createMemPools, wp_bind, wp_read]
  by_cases hcreated : state.memPoolsCreated = false
  · rw [if_pos hcreated, wp_bind, wp_modify, wp_bind, sizeofList_eq, sizeofListNode_eq]
    refine (hstart.createPool allowed).wp ?_
    rintro first middle ⟨_, _, hfirst, hmiddle, hfirstBehaves⟩
    rw [wp_bind]
    refine (hmiddle.createPool allowed).wp ?_
    rintro second after ⟨larger, others, hsecond, hafter, hsecondBehaves⟩
    refine ⟨rfl, larger, others, hafter, (hflag.trans hfirstBehaves).trans hsecondBehaves, ?_, ?_⟩
    · intro herror
      rcases of_decide_eq_true herror with rfl | rfl
      · have hexhausted := hfirst.exhausted
        unfold Exhausted State.room at *
        exact lt_of_lt_of_le hexhausted (Nat.mul_le_mul_right _ (by norm_num))
      · cases first with
        | error =>
            have hexhausted := hfirst.exhausted
            unfold Exhausted State.room at *
            exact lt_of_lt_of_le hexhausted (Nat.mul_le_mul_right _ (by norm_num))
        | ok =>
            have hexhausted := hsecond.exhausted
            have hroom := hfirst.room hstart.pools objectSize_pos
            unfold Exhausted at *
            change state.room target ≤ _ at hroom
            omega
    · intro hnone
      have hok : second = .ok := by
        have hneither := of_decide_eq_false hnone
        cases second with
        | ok => rfl
        | error => exact absurd (Or.inr rfl) hneither
      subst hok
      exact .inr (hsecond.ok_stocked Nat.one_pos)
  · rw [if_neg hcreated]
    exact ⟨rfl, owner, views, hlists, ⟨.refl _ _, .of_eq rfl, .of_log_eq rfl⟩, by simp,
      fun _ => .inl rfl⟩

variable (target) (lists) (app) (state) in
/-- A creation gives a new empty list, or there is no memory for it. -/
inductive CreatesList : Nat → State → Prop
  | created {list : Nat} {after : State} (ne_null : list ≠ null)
      (grown : ∃ owner views, ListsAt target owner views (⟨list, []⟩ :: lists) app after)
      (behaves : Behaves target (fun _ => False) lists state after) : CreatesList list after
  | failed {after : State} (exhausted : Exhausted target 2 state)
      (kept : ∃ owner views, ListsAt target owner views lists app after)
      (behaves : Behaves target (fun _ => False) lists state after) : CreatesList null after

theorem ListsAt.create (hlists : ListsAt target owner views lists app state) :
    (tbxListCreate target).Returns state (CreatesList target lists app state) := by
  refine (hlists.createMemPools fun _ => False).bind ?_
  rintro errorDetected middle ⟨larger, others, hmiddle, hfirst, herror, hnone⟩
  cases errorDetected with
  | true =>
      rw [if_neg (by simp)]
      exact (returns_pure _).mpr (.failed (herror rfl) ⟨larger, others, hmiddle⟩ hfirst)
  | false =>
      rw [if_pos rfl, sizeofList_eq]
      refine hmiddle.allocateGrowing.bind ?_
      rintro list between ⟨⟨largest, news, hacquires⟩, hsame, hchecked, hquiet⟩
      have hbefore := hfirst.trans ⟨hsame, hchecked, .of_quiet hquiet⟩
      cases hacquires with
      | none empty exhausted hbetween =>
          rw [if_neg (by simp)]
          refine (returns_pure _).mpr (.failed ?_ ⟨_, _, hbetween⟩ hbefore)
          -- Behind a creation of pools there is a free block.
          rcases hnone rfl with rfl | ⟨view, hview, hsize, hstocked⟩
          · unfold Exhausted at *
            exact lt_of_lt_of_le exhausted (Nat.mul_le_mul_right _ (by norm_num))
          · exact absurd hstocked (empty view hview hsize)
      | object ne_null holds out hbetween =>
          have hapart : Apart target [list] :=
            Holds.apart hbetween.pools.heap fun data hdata => List.mem_singleton.mp hdata ▸ holds
          intro depth
          rw [if_pos ne_null, wp_bind]
          refine (Edited.refl between list []).wp_store hapart (by norm_num) fun _ hedited => ?_
          rw [wp_bind]
          refine hedited.wp_store hapart (by norm_num) fun _ hedited => ?_
          rw [wp_bind]
          refine hedited.wp_store hapart (by norm_num) fun after hedited => ?_
          obtain ⟨hafter, hbehaves⟩ := hbetween.adopt holds hedited (by simp [Cells.set])
            (by simp [Cells.set]) (by simp [Cells.set])
          exact ⟨rfl, .created ne_null ⟨_, _, hafter⟩ (hbefore.trans hbehaves)⟩

end MicroTbx

import MicroTbx.List.Operations
import MicroTbx.Foundation.DoublyLinked
import MicroTbx.MemPool.Runs

/-! # The cells of a list

While it works on a list, the module sees the memory as cells: the members of
the header and of the nodes, each object with three of them. As long as these
objects do not overlap, a store through one pointer changes one cell, and no
word outside the objects changes.
-/

namespace MicroTbx

open Program

/-- Values of members, by the pointer to the object and the index of the member. -/
abbrev Cells := Nat → Nat → Nat

def Cells.set (cells : Cells) (pointer index value : Nat) : Cells :=
  fun other member => if other = pointer ∧ member = index then value else cells other member

/-- The members of objects as memory holds them. -/
def cellsOf (target : Target) (mem : Nat → Nat) : Cells :=
  fun pointer index => mem (target.field pointer index)

/-- A header and nodes in a chain in both directions, and their number. -/
structure ListShape (cells : Cells) (list : Nat) (nodes : List Nat) : Prop where
  count : cells list TbxList.nodeCount = nodes.length
  links : Chain.DoublyLinked (cells · ListNode.nextNodePtr) (cells · ListNode.prevNodePtr) null
    (cells list TbxList.firstNodePtr) (cells list TbxList.lastNodePtr) nodes

/-- The items of nodes. -/
def itemsOf (cells : Cells) (nodes : List Nat) : List Nat :=
  nodes.map (cells · ListNode.itemPtr)

/-- Objects of three words that do not overlap. -/
structure Apart (target : Target) (objects : List Nat) : Prop where
  ne_null : ∀ pointer ∈ objects, pointer ≠ null
  field_inj : ∀ left ∈ objects, ∀ right ∈ objects, ∀ i < 3, ∀ j < 3,
    target.field left i = target.field right j → left = right ∧ i = j

/-- Since `state` only cells of the list were written and only its nodes
dereferenced, and the cells now hold the given values. -/
structure Edited (target : Target) (list : Nat) (nodes : List Nat) (state after : State)
    (cells : Cells) : Prop where
  cells : ∀ pointer ∈ list :: nodes, ∀ i < 3, after.mem (target.field pointer i) = cells pointer i
  frame : ∀ address, (∀ pointer ∈ list :: nodes, ∀ i < 3, address ≠ target.field pointer i) →
    after.mem address = state.mem address
  log : ∃ visited : List Nat, (∀ node ∈ visited, node ∈ nodes) ∧
    after.log = visited.map Event.nodeAccess ++ state.log
  allocated : after.tbxHeapAllocated = state.tbxHeapAllocated
  poolList : after.tbxPoolList = state.tbxPoolList
  memPoolsCreated : after.memPoolsCreated = state.memPoolsCreated

variable {target : Target} {list node index value depth : Nat} {nodes front back : List Nat}
  {state middle after : State} {cells cells' : Cells}

@[simp] theorem Cells.set_self : (cells.set node index value) node index = value := by
  simp [Cells.set]

theorem Cells.set_of_ne {pointer member : Nat} (hne : pointer ≠ node ∨ member ≠ index) :
    (cells.set node index value) pointer member = cells pointer member :=
  if_neg (not_and_or.mpr hne)

/-! ## Rules for statements -/

namespace Edited

theorem refl (state : State) (list : Nat) (nodes : List Nat) :
    Edited target list nodes state state (cellsOf target state.mem) :=
  ⟨fun _ _ _ _ => rfl, fun _ _ => rfl, ⟨[], by simp, rfl⟩, rfl, rfl, rfl⟩

theorem congr (hedited : Edited target list nodes state middle cells)
    (hsame : ∀ pointer ∈ list :: nodes, ∀ i < 3, cells' pointer i = cells pointer i) :
    Edited target list nodes state middle cells' :=
  { hedited with
    cells := fun pointer hpointer i hi =>
      (hedited.cells pointer hpointer i hi).trans (hsame pointer hpointer i hi).symm }

theorem emit (hedited : Edited target list nodes state middle cells) (hnode : node ∈ nodes) :
    Edited target list nodes state (middle.emit (.nodeAccess node)) cells := by
  obtain ⟨visited, hvisited, hlog⟩ := hedited.log
  refine { hedited with log := ⟨node :: visited, ?_, ?_⟩ }
  · exact List.forall_mem_cons.mpr ⟨hnode, hvisited⟩
  · rw [State.emit_log, hlog]
    rfl

theorem store (hedited : Edited target list nodes state middle cells)
    (hapart : Apart target (list :: nodes)) {pointer : Nat} (hpointer : pointer ∈ list :: nodes)
    (hindex : index < 3) :
    Edited target list nodes state (middle.store (target.field pointer index) value)
      (cells.set pointer index value) := by
  refine { hedited with cells := fun other hother i hi => ?_, frame := fun address haddress => ?_ }
  · rw [State.store_mem]
    by_cases hsame : other = pointer ∧ i = index
    · obtain ⟨rfl, rfl⟩ := hsame
      rw [Function.update_self, Cells.set_self]
    · have hne : target.field other i ≠ target.field pointer index := fun heq =>
        hsame (hapart.field_inj other hother pointer hpointer i hi index hindex heq)
      rw [Function.update_of_ne hne, Cells.set_of_ne (not_and_or.mp hsame)]
      exact hedited.cells other hother i hi
  · rw [State.store_mem, Function.update_of_ne (haddress pointer hpointer index hindex)]
    exact hedited.frame address haddress

section Rules

variable {post : Nat → Nat → State → Prop} {done : Unit → Nat → State → Prop}

theorem wp_load (hedited : Edited target list nodes state middle cells)
    (hapart : Apart target (list :: nodes)) (hindex : index < 3)
    (hpost : post (cells list index) depth middle) :
    (load target list index).wp post depth middle := by
  refine MicroTbx.wp_load.mpr ⟨hapart.ne_null list List.mem_cons_self, ?_⟩
  rw [hedited.cells list List.mem_cons_self index hindex]
  exact hpost

theorem wp_store (hedited : Edited target list nodes state middle cells)
    (hapart : Apart target (list :: nodes)) (hindex : index < 3)
    (hpost : ∀ after, Edited target list nodes state after (cells.set list index value) →
      done () depth after) :
    (MicroTbx.store target list index value).wp done depth middle :=
  MicroTbx.wp_store.mpr ⟨hapart.ne_null list List.mem_cons_self,
    hpost _ (hedited.store hapart List.mem_cons_self hindex)⟩

theorem wp_loadNode (hedited : Edited target list nodes state middle cells)
    (hapart : Apart target (list :: nodes)) (hnode : node ∈ nodes) (hindex : index < 3)
    (hpost : ∀ after, Edited target list nodes state after cells →
      post (cells node index) depth after) :
    (loadNode target node index).wp post depth middle := by
  have hmem : node ∈ list :: nodes := List.mem_cons_of_mem _ hnode
  rw [loadNode, wp_bind, wp_emit]
  refine MicroTbx.wp_load.mpr ⟨hapart.ne_null node hmem, ?_⟩
  rw [State.emit_mem, hedited.cells node hmem index hindex]
  exact hpost _ (hedited.emit hnode)

theorem wp_storeNode (hedited : Edited target list nodes state middle cells)
    (hapart : Apart target (list :: nodes)) (hnode : node ∈ nodes) (hindex : index < 3)
    (hpost : ∀ after, Edited target list nodes state after (cells.set node index value) →
      done () depth after) :
    (storeNode target node index value).wp done depth middle := by
  have hmem : node ∈ list :: nodes := List.mem_cons_of_mem _ hnode
  rw [storeNode, wp_bind, wp_emit]
  exact MicroTbx.wp_store.mpr ⟨hapart.ne_null node hmem,
    hpost _ ((hedited.emit hnode).store hapart hmem hindex)⟩

theorem wp_incrementNodeCount (hedited : Edited target list nodes state middle cells)
    (hapart : Apart target (list :: nodes))
    (hlt : cells list TbxList.nodeCount + 1 < 2 ^ target.sizeBits)
    (hpost : ∀ after, Edited target list nodes state after
      (cells.set list TbxList.nodeCount (cells list TbxList.nodeCount + 1)) → done () depth after) :
    (incrementNodeCount target list).wp done depth middle := by
  rw [incrementNodeCount, wp_bind]
  refine hedited.wp_load hapart (by norm_num) ?_
  refine hedited.wp_store hapart (by norm_num) fun after hafter => hpost after ?_
  rwa [target.sizeT_of_lt hlt] at hafter

theorem wp_decrementNodeCount (hedited : Edited target list nodes state middle cells)
    (hapart : Apart target (list :: nodes)) (hpos : 0 < cells list TbxList.nodeCount)
    (hlt : cells list TbxList.nodeCount < 2 ^ target.sizeBits)
    (hpost : ∀ after, Edited target list nodes state after
      (cells.set list TbxList.nodeCount (cells list TbxList.nodeCount - 1)) → done () depth after) :
    (decrementNodeCount target list).wp done depth middle := by
  have hwrap : target.sizeT (cells list TbxList.nodeCount + 2 ^ target.sizeBits - 1) =
      cells list TbxList.nodeCount - 1 := by
    rw [Nat.sub_add_comm hpos, Target.sizeT, Nat.add_mod_right, Nat.mod_eq_of_lt (by omega)]
  rw [decrementNodeCount, wp_bind]
  refine hedited.wp_load hapart (by norm_num) ?_
  refine hedited.wp_store hapart (by norm_num) fun after hafter => hpost after ?_
  rwa [hwrap] at hafter

end Rules

end Edited

/-- A check that holds is passed without a trace. -/
theorem wp_tbxAssert_of {site : Site} {kind : AssertKind} {condition : Bool}
    {done : Unit → Nat → State → Prop} (hcondition : condition = true)
    (hdone : done () depth state) : (tbxAssert site kind condition).wp done depth state := by
  subst hcondition
  exact hdone

end MicroTbx

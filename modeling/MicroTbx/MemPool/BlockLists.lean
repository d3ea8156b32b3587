import MicroTbx.MemPool.Layout

/-! # Block lists

A block list is a heap word that points at the first of a chain of block
nodes. Inserting and extracting happen at the head.
-/

namespace MicroTbx

open Program

variable (target : Target)

/-- The state after a node became the head of a block list. -/
@[simps! -fullyApplied]
def State.push (state : State) (listPtr nodePtr : Nat) : State :=
  (state.store (target.field nodePtr BlockNode.nextNodePtr) (state.mem (target.field listPtr 0))).store
    (target.field listPtr 0) nodePtr

/-- The state after the head of a block list was taken off. -/
@[simps! -fullyApplied]
def State.pop (state : State) (listPtr : Nat) : State :=
  state.store (target.field listPtr 0) (nextNode target state.mem (state.mem (target.field listPtr 0)))

variable {target} {state : State} {listPtr nodePtr address : Nat} {nodes : List Nat}

theorem Target.field_inj {left right : Nat} (index : Nat) :
    target.field left index = target.field right index ↔ left = right := by
  simp [Target.field]

theorem tbxMemPoolBlockListInsert_spec (hlist : listPtr ≠ null) (hnode : nodePtr ≠ null) :
    (tbxMemPoolBlockListInsert target listPtr nodePtr).Evaluates state ()
      (state.push target listPtr nodePtr) := by
  intro depth
  simp only [null_eq] at hlist hnode
  by_cases hhead : state.mem (target.field listPtr 0) = 0 <;>
    simp [tbxMemPoolBlockListInsert, State.push, hlist, hnode, hhead]

theorem tbxMemPoolBlockListExtract_spec (hlist : listPtr ≠ null)
    (hhead : state.mem (target.field listPtr 0) = nodePtr) (hnode : nodePtr ≠ null) :
    (tbxMemPoolBlockListExtract target listPtr).Evaluates state nodePtr
      (state.pop target listPtr) := by
  intro depth
  subst hhead
  simp only [null_eq] at hlist hnode
  by_cases hnext : state.mem (target.field (state.mem (target.field listPtr 0)) 1) = 0 <;>
    simp [tbxMemPoolBlockListExtract, State.pop, nextNode, hlist, hnode, hnext]

theorem tbxMemPoolBlockListIsEmpty_spec (hlist : listPtr ≠ null) :
    (tbxMemPoolBlockListIsEmpty target listPtr).Evaluates state
      (decide (state.mem (target.field listPtr 0) = null)) state := by
  intro depth
  simp only [null_eq] at hlist
  simp [tbxMemPoolBlockListIsEmpty, hlist]

/-! ## The chains of nodes -/

variable {mem : Nat → Nat}

theorem BlockChain.head (hchain : BlockChain target mem listPtr (nodePtr :: nodes)) :
    mem (target.field listPtr 0) = nodePtr ∧ nodePtr ≠ null :=
  ⟨(Chain.linked_cons.mp hchain).1, (Chain.linked_cons.mp hchain).2.1⟩

theorem State.push_mem_of_ne (hnode : address ≠ target.field nodePtr 1)
    (hlist : address ≠ target.field listPtr 0) :
    (state.push target listPtr nodePtr).mem address = state.mem address := by
  simp [Function.update_of_ne hlist, Function.update_of_ne hnode]

theorem State.pop_mem_of_ne (hlist : address ≠ target.field listPtr 0) :
    (state.pop target listPtr).mem address = state.mem address := by
  simp [Function.update_of_ne hlist]

theorem BlockChain.push (hchain : BlockChain target state.mem listPtr nodes)
    (hnode : nodePtr ≠ null) (hnew : nodePtr ∉ nodes)
    (happart : ∀ node ∈ nodePtr :: nodes, target.field node 1 ≠ target.field listPtr 0) :
    BlockChain target (state.push target listPtr nodePtr).mem listPtr (nodePtr :: nodes) := by
  have hfirst := happart nodePtr List.mem_cons_self
  refine Chain.linked_cons.mpr ⟨by simp, hnode, ?_⟩
  have hlink : nextNode target (state.push target listPtr nodePtr).mem nodePtr =
      state.mem (target.field listPtr 0) := by
    simp [nextNode, Function.update_of_ne hfirst]
  rw [hlink]
  refine Chain.Linked.congr hchain fun node hmem => ?_
  apply State.push_mem_of_ne
  · rw [Ne, Target.field_inj]
    exact ne_of_mem_of_not_mem hmem hnew
  · exact happart node (List.mem_cons_of_mem _ hmem)

theorem BlockChain.pop (hchain : BlockChain target state.mem listPtr (nodePtr :: nodes))
    (happart : ∀ node ∈ nodes, target.field node 1 ≠ target.field listPtr 0) :
    BlockChain target (state.pop target listPtr).mem listPtr nodes := by
  obtain ⟨hhead, -, hrest⟩ := Chain.linked_cons.mp hchain
  have hstart : (state.pop target listPtr).mem (target.field listPtr 0) =
      nextNode target state.mem nodePtr := by
    simp [hhead]
  unfold BlockChain
  rw [hstart]
  exact hrest.congr fun node hmem => State.pop_mem_of_ne (happart node hmem)

/-- Pushing onto another list. -/
theorem BlockChain.push_other {other : Nat} (hchain : BlockChain target state.mem other nodes)
    (hlists : target.field other 0 ≠ target.field listPtr 0)
    (hhead : target.field nodePtr 1 ≠ target.field other 0) (hnew : nodePtr ∉ nodes)
    (happart : ∀ node ∈ nodes, target.field node 1 ≠ target.field listPtr 0) :
    BlockChain target (state.push target listPtr nodePtr).mem other nodes := by
  refine hchain.congr (State.push_mem_of_ne hhead.symm hlists) fun node hmem => ?_
  apply State.push_mem_of_ne
  · rw [Ne, Target.field_inj]
    exact ne_of_mem_of_not_mem hmem hnew
  · exact happart node hmem

/-- Popping another list. -/
theorem BlockChain.pop_other {other : Nat} (hchain : BlockChain target state.mem other nodes)
    (hlists : target.field other 0 ≠ target.field listPtr 0)
    (happart : ∀ node ∈ nodes, target.field node 1 ≠ target.field listPtr 0) :
    BlockChain target (state.pop target listPtr).mem other nodes :=
  hchain.congr (State.pop_mem_of_ne hlists) fun node hmem =>
    State.pop_mem_of_ne (happart node hmem)

end MicroTbx

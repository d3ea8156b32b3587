import MicroTbx.Foundation.Program
import MicroTbx.Core.Target
import Mathlib.Logic.Function.Basic
import Mathlib.Tactic.Simps.Basic

/-! # Memory and statics of the library

The heap buffer is a memory of words at byte addresses; every object the
library places in it is word aligned, so that two field accesses meet exactly
when their addresses agree. Beside the memory the state holds the static
variables of the heap, memory pool and list modules, and a log of the events
that specifications speak about. No code reads the log.
-/

namespace MicroTbx

/-- The `NULL` pointer. Pointers are byte addresses. -/
def null : Nat := 0

@[simp] theorem null_eq : null = 0 := rfl

/-- Functions of the library that contain run-time assertions. -/
inductive Site
  | tbxHeapAllocate
  | tbxMemPoolCreate
  | tbxMemPoolAllocate
  | tbxMemPoolAllocateAuto
  | tbxMemPoolRelease
  | tbxMemPoolListFind
  | tbxMemPoolListFindBestFit
  | tbxMemPoolListInsert
  | tbxMemPoolBlockCreate
  | tbxMemPoolBlockGetDataPtr
  | tbxMemPoolBlockGetBlockSize
  | tbxMemPoolBlockGetMemPtr
  | tbxMemPoolBlockListInsert
  | tbxMemPoolBlockListExtract
  | tbxMemPoolBlockListIsEmpty
  | tbxListDelete
  | tbxListClear
  | tbxListGetSize
  | tbxListInsertItemFront
  | tbxListInsertItemBack
  | tbxListInsertItemBefore
  | tbxListInsertItemAfter
  | tbxListRemoveItem
  | tbxListGetFirstItem
  | tbxListGetLastItem
  | tbxListGetPreviousItem
  | tbxListGetNextItem
  | tbxListSwapItems
  | tbxListSortItems
  | tbxListFindListNode
  deriving DecidableEq

/-- An assertion verifies a parameter or checks the internal state. -/
inductive AssertKind
  | parameter
  | sanity
  deriving DecidableEq

/-- What the library does that its specifications observe. -/
inductive Event
  /-- A `TBX_ASSERT` whose condition does not hold. -/
  | assertion (site : Site) (kind : AssertKind)
  /-- `TbxHeapAllocate` took a range of the heap buffer. -/
  | heapTaken (start : Nat) (bytes : Nat)
  /-- A new block joined the pool of its size. -/
  | blockAdded (blockSize : Nat) (block : Nat)
  /-- `TbxMemPoolAllocate` handed out the data of a block. -/
  | allocated (data : Nat)
  /-- `TbxMemPoolRelease` took a block back. -/
  | released (data : Nat)
  /-- The list module dereferences a list node pointer. -/
  | nodeAccess (node : Nat)
  deriving DecidableEq

/-- Why execution cannot continue: a `NULL` dereference, or a loop that walks
more nodes than the heap can hold and therefore never ends. -/
inductive Fault
  | nullDereference
  | endlessLoop
  deriving DecidableEq

/-- The static variables, the words of the heap buffer, and the log with the
newest event first. -/
structure State where
  tbxHeapAllocated : Nat
  tbxPoolList : Nat
  memPoolsCreated : Bool
  mem : Nat → Nat
  log : List Event

namespace State

/-- Program start: statics are zero. -/
def initial : State where
  tbxHeapAllocated := 0
  tbxPoolList := null
  memPoolsCreated := false
  mem := fun _ => 0
  log := []

@[simps -fullyApplied]
def store (state : State) (address value : Nat) : State :=
  { state with mem := Function.update state.mem address value }

@[simps -fullyApplied]
def emit (state : State) (event : Event) : State :=
  { state with log := event :: state.log }

@[simps -fullyApplied]
def setPoolList (state : State) (node : Nat) : State :=
  { state with tbxPoolList := node }

@[simps -fullyApplied]
def setHeapAllocated (state : State) (bytes : Nat) : State :=
  { state with tbxHeapAllocated := bytes }

@[simps -fullyApplied]
def setMemPoolsCreated (state : State) : State :=
  { state with memPoolsCreated := true }

end State

/-- `TBX_OK` and `TBX_ERROR`. -/
inductive Status
  | ok
  | error
  deriving DecidableEq

/-! ## Primitive statements -/

/-- Code of the library. -/
abbrev Code := Program State Fault

open Program

/-- Address of a word-sized struct member. -/
def Target.field (target : Target) (pointer : Nat) (index : Nat) : Nat :=
  pointer + index * target.word

theorem Target.field_zero (target : Target) (pointer : Nat) :
    target.field pointer 0 = pointer := by
  simp [Target.field]

/-- Bound on the nodes of a terminated chain of heap objects: a loop that
visits more of them has entered a cycle. -/
def Target.loopFuel (target : Target) : Nat := target.heapSize + 1

def emit (event : Event) : Code Unit := modify (·.emit event)

/-- `TBX_ASSERT` with a handler that returns, or with assertions disabled:
execution continues either way. -/
def tbxAssert (site : Site) (kind : AssertKind) (condition : Bool) : Code Unit :=
  if condition then pure () else emit (.assertion site kind)

/-- Read a word-sized member through a pointer. -/
def load (target : Target) (pointer : Nat) (index : Nat) : Code Nat :=
  if pointer = null then .fault .nullDereference
  else do
    let state ← read
    return state.mem (target.field pointer index)

/-- Write a word-sized member through a pointer. -/
def store (target : Target) (pointer : Nat) (index value : Nat) : Code Unit :=
  if pointer = null then .fault .nullDereference
  else modify (·.store (target.field pointer index) value)

section Statements

variable {target : Target} {pointer : Nat} {index value depth : Nat} {state : State}

@[simp] theorem wp_emit {post : Unit → Nat → State → Prop} (event : Event) :
    (emit event).wp post depth state ↔ post () depth (state.emit event) := Iff.rfl

@[simp] theorem wp_tbxAssert_true {post : Unit → Nat → State → Prop} {site : Site}
    {kind : AssertKind} :
    (tbxAssert site kind true).wp post depth state ↔ post () depth state := Iff.rfl

@[simp] theorem wp_tbxAssert_false {post : Unit → Nat → State → Prop} {site : Site}
    {kind : AssertKind} :
    (tbxAssert site kind false).wp post depth state ↔
      post () depth (state.emit (.assertion site kind)) := Iff.rfl

@[simp] theorem wp_load {post : Nat → Nat → State → Prop} :
    (load target pointer index).wp post depth state ↔
      pointer ≠ null ∧ post (state.mem (target.field pointer index)) depth state := by
  by_cases hnull : pointer = 0 <;> simp [load, hnull]

@[simp] theorem wp_store {post : Unit → Nat → State → Prop} :
    (store target pointer index value).wp post depth state ↔
      pointer ≠ null ∧ post () depth (state.store (target.field pointer index) value) := by
  by_cases hnull : pointer = 0 <;> simp [store, hnull]

theorem evaluates_store (hpointer : pointer ≠ null) :
    (store target pointer index value).Evaluates state ()
      (state.store (target.field pointer index) value) :=
  fun _ => wp_store.mpr ⟨hpointer, rfl, rfl, rfl⟩

theorem evaluates_load (hpointer : pointer ≠ null)
    (hvalue : state.mem (target.field pointer index) = value) :
    (load target pointer index).Evaluates state value state :=
  fun _ => wp_load.mpr ⟨hpointer, rfl, hvalue, rfl⟩

theorem evaluates_tbxAssert {site : Site} {kind : AssertKind} {condition : Bool}
    (hcondition : condition = true) : (tbxAssert site kind condition).Evaluates state () state := by
  subst hcondition
  exact fun _ => ⟨rfl, rfl, rfl⟩

theorem evaluates_emit (event : Event) : (emit event).Evaluates state () (state.emit event) :=
  fun _ => ⟨rfl, rfl, rfl⟩

theorem evaluates_pure {Value : Type} (result : Value) :
    (pure result : Code Value).Evaluates state result state :=
  fun _ => ⟨rfl, rfl, rfl⟩

end Statements

/-! ## Reading the log -/

/-- The data pointers handed out and not yet released. -/
@[simp]
def handedOut : List Event → List Nat
  | [] => []
  | .allocated data :: earlier => data :: handedOut earlier
  | .released data :: earlier => (handedOut earlier).erase data
  | _ :: earlier => handedOut earlier

/-- The blocks ever added to the pool of a block size. -/
@[simp]
def blocksAdded (blockSize : Nat) : List Event → List Nat
  | [] => []
  | .blockAdded size block :: earlier =>
      if size = blockSize then block :: blocksAdded blockSize earlier
      else blocksAdded blockSize earlier
  | _ :: earlier => blocksAdded blockSize earlier

/-- The assertions that did not hold. -/
@[simp]
def asserted : List Event → List (Site × AssertKind)
  | [] => []
  | .assertion site kind :: earlier => (site, kind) :: asserted earlier
  | _ :: earlier => asserted earlier

end MicroTbx

import MicroTbx.CritSect.Execution
import MicroTbx.List.Sections
import MicroTbx.Random.Generator

/-! # Library calls leave the sections they enter

The heap, memory pool, list and random functions nest their sections in each
other and have many ways to return. On every one of them the critical section
module is left as it was found.
-/

namespace MicroTbx

open Program

/-! ## The random functions -/

@[simp] theorem balanced_randomAssert {site : RandomSite} {condition : Bool} :
    (randomAssert site condition).Balanced 0 := Balanced.ite rfl (Balanced.modify _)

@[simp] theorem balanced_callSeedInitHandler {handler : SeedInitHandler} :
    (callSeedInitHandler handler).Balanced 0 := by
  unfold callSeedInitHandler
  repeat' with_reducible first | apply Balanced.part | intro _ | simp

@[simp] theorem balanced_initLFSRs : tbxRandomInitLFSRs.Balanced 0 := by
  unfold tbxRandomInitLFSRs
  apply Balanced.read.part
  intro state
  cases state.tbxRandomSeedInitHandler with
  | none => repeat' with_reducible first | apply Balanced.part | intro _ | simp
  | some handler => repeat' with_reducible first | apply Balanced.part | intro _ | simp

@[simp] theorem balanced_shiftLFSR {lfsr : Option LfsrPointer} {polymask : BitVec 32} :
    (tbxRandomShiftLFSR lfsr polymask).Balanced 0 := by
  unfold tbxRandomShiftLFSR
  apply balanced_randomAssert.part
  intro _
  cases lfsr with
  | none => rfl
  | some lfsr =>
      repeat' with_reducible first | apply Balanced.part | apply Balanced.ite | intro _ | simp

@[simp] theorem balanced_number16BitGet : tbxRandomNumber16BitGet.Balanced 0 := by
  unfold tbxRandomNumber16BitGet
  repeat' with_reducible first
    | apply Balanced.enter | apply Balanced.leave | apply Balanced.part | intro _ | simp

@[simp] theorem balanced_numberGet : tbxRandomNumberGet.Balanced 0 := by
  unfold tbxRandomNumberGet
  repeat' with_reducible first | apply Balanced.part | apply Balanced.ite | intro _ | simp

@[simp] theorem balanced_setSeedInitHandler {seedInitHandler : Option SeedInitHandler} :
    (tbxRandomSetSeedInitHandler seedInitHandler).Balanced 0 := by
  unfold tbxRandomSetSeedInitHandler
  repeat' with_reducible first | apply Balanced.part | apply Balanced.ite | intro _ | simp

/-! ## The library -/

/-- The variables of the library outside of the critical section module. -/
structure LibraryState where
  memory : State
  random : RandomState

/-- A function of the heap, memory pool or list module. -/
def onMemory {Value : Type} (code : Code Value) : Program LibraryState Fault Unit := do
  let _ ← code.lift LibraryState.memory (fun whole memory => { whole with memory := memory }) id
  return ()

/-- A function of the random module. -/
def onRandom {Value : Type} (code : RandomCode Value) : Program LibraryState Fault Unit := do
  let _ ← code.lift LibraryState.random (fun whole random => { whole with random := random })
    Empty.elim
  return ()

/-- The interface functions with their arguments, whatever these are. -/
inductive LibraryCall
  | heapAllocate (size : Nat)
  | heapGetFree
  | memPoolCreate (numBlocks blockSize : Nat)
  | memPoolAllocate (size : Nat)
  | memPoolAllocateAuto (size : Nat)
  | memPoolRelease (memPtr : Nat)
  | listCreate
  | listDelete (list : Nat)
  | listClear (list : Nat)
  | listGetSize (list : Nat)
  | listInsertItemFront (list item : Nat)
  | listInsertItemBack (list item : Nat)
  | listInsertItemBefore (list item itemRef : Nat)
  | listInsertItemAfter (list item itemRef : Nat)
  | listRemoveItem (list item : Nat)
  | listGetFirstItem (list : Nat)
  | listGetLastItem (list : Nat)
  | listGetPreviousItem (list itemRef : Nat)
  | listGetNextItem (list itemRef : Nat)
  | listSwapItems (list item1 item2 : Nat)
  | listSortItems (list : Nat) (compareItemsFcn : Option CompareItems)
  | randomSetSeedInitHandler (seedInitHandler : Option SeedInitHandler)
  | randomNumberGet

def LibraryCall.perform (target : Target) : LibraryCall → Program LibraryState Fault Unit
  | .heapAllocate size => onMemory (tbxHeapAllocate target size)
  | .heapGetFree => onMemory (tbxHeapGetFree target)
  | .memPoolCreate numBlocks blockSize => onMemory (tbxMemPoolCreate target numBlocks blockSize)
  | .memPoolAllocate size => onMemory (tbxMemPoolAllocate target size)
  | .memPoolAllocateAuto size => onMemory (tbxMemPoolAllocateAuto target size)
  | .memPoolRelease memPtr => onMemory (tbxMemPoolRelease target memPtr)
  | .listCreate => onMemory (tbxListCreate target)
  | .listDelete list => onMemory (tbxListDelete target list)
  | .listClear list => onMemory (tbxListClear target list)
  | .listGetSize list => onMemory (tbxListGetSize target list)
  | .listInsertItemFront list item => onMemory (tbxListInsertItemFront target list item)
  | .listInsertItemBack list item => onMemory (tbxListInsertItemBack target list item)
  | .listInsertItemBefore list item itemRef =>
      onMemory (tbxListInsertItemBefore target list item itemRef)
  | .listInsertItemAfter list item itemRef =>
      onMemory (tbxListInsertItemAfter target list item itemRef)
  | .listRemoveItem list item => onMemory (tbxListRemoveItem target list item)
  | .listGetFirstItem list => onMemory (tbxListGetFirstItem target list)
  | .listGetLastItem list => onMemory (tbxListGetLastItem target list)
  | .listGetPreviousItem list itemRef => onMemory (tbxListGetPreviousItem target list itemRef)
  | .listGetNextItem list itemRef => onMemory (tbxListGetNextItem target list itemRef)
  | .listSwapItems list item1 item2 => onMemory (tbxListSwapItems target list item1 item2)
  | .listSortItems list compareItemsFcn => onMemory (tbxListSortItems target list compareItemsFcn)
  | .randomSetSeedInitHandler seedInitHandler =>
      onRandom (tbxRandomSetSeedInitHandler seedInitHandler)
  | .randomNumberGet => onRandom tbxRandomNumberGet

theorem balanced_onMemory {Value : Type} {code : Code Value} (hcode : code.Balanced 0) :
    (onMemory code).Balanced 0 := hcode.lift.part fun _ => rfl

theorem balanced_onRandom {Value : Type} {code : RandomCode Value} (hcode : code.Balanced 0) :
    (onRandom code).Balanced 0 := hcode.lift.part fun _ => rfl

/-- On every path of a call each section that is entered is left. -/
theorem LibraryCall.balanced (target : Target) (call : LibraryCall) :
    (call.perform target).Balanced 0 := by
  cases call with
  | heapAllocate size => exact balanced_onMemory balanced_heapAllocate
  | heapGetFree => exact balanced_onMemory balanced_heapGetFree
  | memPoolCreate numBlocks blockSize => exact balanced_onMemory balanced_poolCreate
  | memPoolAllocate size => exact balanced_onMemory balanced_poolAllocate
  | memPoolAllocateAuto size => exact balanced_onMemory balanced_poolAllocateAuto
  | memPoolRelease memPtr => exact balanced_onMemory balanced_poolRelease
  | listCreate => exact balanced_onMemory balanced_listCreate
  | listDelete list => exact balanced_onMemory balanced_listDelete
  | listClear list => exact balanced_onMemory balanced_listClear
  | listGetSize list => exact balanced_onMemory balanced_listGetSize
  | listInsertItemFront list item =>
      exact balanced_onMemory (balanced_insertAtEnd fun _ => balanced_linkFront)
  | listInsertItemBack list item =>
      exact balanced_onMemory (balanced_insertAtEnd fun _ => balanced_linkBack)
  | listInsertItemBefore list item itemRef =>
      exact balanced_onMemory (balanced_insertNextTo fun _ _ => balanced_linkBefore)
  | listInsertItemAfter list item itemRef =>
      exact balanced_onMemory (balanced_insertNextTo fun _ _ => balanced_linkAfter)
  | listRemoveItem list item => exact balanced_onMemory balanced_removeItem
  | listGetFirstItem list => exact balanced_onMemory balanced_getItemAtEnd
  | listGetLastItem list => exact balanced_onMemory balanced_getItemAtEnd
  | listGetPreviousItem list itemRef => exact balanced_onMemory balanced_getItemNextTo
  | listGetNextItem list itemRef => exact balanced_onMemory balanced_getItemNextTo
  | listSwapItems list item1 item2 => exact balanced_onMemory balanced_swapItems
  | listSortItems list compareItemsFcn => exact balanced_onMemory balanced_sortItems
  | randomSetSeedInitHandler seedInitHandler => exact balanced_onRandom balanced_setSeedInitHandler
  | randomNumberGet => exact balanced_onRandom balanced_numberGet

section Calls

variable {Core Hardware SR Status : Type} [DecidableEq Core] {port : Port Core Hardware SR}
  {core : Core} {status : Hardware → Status} {off : Status → Prop} {saves : SR → Status → Prop}
  {callback : LibraryState → CritSect Core Hardware SR → LibraryState →
    CritSect Core Hardware SR → Prop}
  {state final : LibraryState} {sections after : CritSect Core Hardware SR}

/-- Every call that returns leaves the critical section module as it found it,
whatever the arguments and the contents of memory are, when the application
code that runs on the way does. -/
theorem library_calls_undisturbed (laws : PortLaws port core status off saves)
    (hcallback : ∀ state sections later between, callback state sections later between →
      Undisturbed status core sections between)
    (hreached : SectionsReached port core sections) (target : Target) (call : LibraryCall)
    (hreturns : Executes port core callback (call.perform target) state sections () final after) :
    Undisturbed status core sections after :=
  hreturns.undisturbed laws hcallback hreached (call.balanced target)

end Calls

/-- Program start. -/
def LibraryState.initial : LibraryState := ⟨.initial, .initial⟩

/-- A heap too small for the two blocks that the first list asks for. -/
def crampedHeap : Target := { linux64 with heapSize := 128, heapSize_lt := by decide }

/-- The application is in a section that it entered with interrupts enabled. -/
def oneSection : Option (CritSect Unit (BitVec 32) (BitVec 32)) :=
  ((tbxCriticalSectionEnter cortexM.port ()).run (.initial 0 0)).map Prod.snd

theorem library_calls_undisturbed_cramped : ∃ sections final after,
    sections.tbxCritSectNestingCounter = 1 ∧
    Executes cortexM.port () (fun _ _ _ _ => False) (LibraryCall.listCreate.perform crampedHeap)
      .initial sections () final after ∧
    Undisturbed id () sections after := by
  have hexecutes : (oneSection.bind fun sections => (execute cortexM.port ()
      (LibraryCall.listCreate.perform crampedHeap) .initial sections).map fun _ =>
        sections.tbxCritSectNestingCounter) = some 1 := by
    decide +kernel
  obtain ⟨sections, hentered, hdone⟩ := Option.bind_eq_some_iff.mp hexecutes
  obtain ⟨⟨_, final, after⟩, hexecute, hcounter⟩ := Option.map_eq_some_iff.mp hdone
  obtain ⟨⟨_, _⟩, hrun, rfl⟩ := Option.map_eq_some_iff.mp hentered
  have hreached := SectionsReached.enter (.outside rfl) (by decide) hrun
  have hcall : Executes cortexM.port () (fun _ _ _ _ => False) _ _ _ _ _ _ :=
    Executes.of_execute hexecute
  exact ⟨_, final, after, hcounter, hcall,
    library_calls_undisturbed cortexM_laws (fun _ _ _ _ => False.elim) hreached crampedHeap .listCreate
      hcall⟩

end MicroTbx

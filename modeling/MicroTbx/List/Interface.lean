import MicroTbx.List.Operations
import MicroTbx.Foundation.Sequence
import MicroTbx.MemPool.Runs

/-! # The interface of the list module

The calls an application can make, what they do to the sequence of items that
a list stands for, and which of them it may make: it works on lists that it
has created and not yet deleted, and uses the pools for blocks of its own.
-/

namespace MicroTbx

open Program

/-- The answer of the callback as a condition. -/
def greater (compareItemsFcn : CompareItems) (calls left right : Nat) : Bool :=
  decide (compareItemsFcn calls left right = tbxTrue)

/-- Calls on a list that stays in existence. -/
inductive ListOperation
  | clear
  | getSize
  | insertItemFront (item : Nat)
  | insertItemBack (item : Nat)
  | insertItemBefore (item itemRef : Nat)
  | insertItemAfter (item itemRef : Nat)
  | removeItem (item : Nat)
  | getFirstItem
  | getLastItem
  | getPreviousItem (itemRef : Nat)
  | getNextItem (itemRef : Nat)
  | swapItems (item1 item2 : Nat)
  | sortItems (compareItemsFcn : Option CompareItems)

inductive ListCall
  | create
  | delete (list : Nat)
  | on (list : Nat) (operation : ListOperation)
  /-- The application uses the memory pools itself. -/
  | pool (call : PoolCall)

inductive ListReply
  | status (result : Status)
  | pointer (result : Nat)
  | size (result : Nat)
  | none
  | pool (reply : PoolReply)
  deriving DecidableEq

namespace ListOperation

variable (target : Target)

def perform (list : Nat) : ListOperation → Code ListReply
  | .clear => do
      tbxListClear target list
      return .none
  | .getSize => do
      let result ← tbxListGetSize target list
      return .size result
  | .insertItemFront item => do
      let result ← tbxListInsertItemFront target list item
      return .status result
  | .insertItemBack item => do
      let result ← tbxListInsertItemBack target list item
      return .status result
  | .insertItemBefore item itemRef => do
      let result ← tbxListInsertItemBefore target list item itemRef
      return .status result
  | .insertItemAfter item itemRef => do
      let result ← tbxListInsertItemAfter target list item itemRef
      return .status result
  | .removeItem item => do
      tbxListRemoveItem target list item
      return .none
  | .getFirstItem => do
      let result ← tbxListGetFirstItem target list
      return .pointer result
  | .getLastItem => do
      let result ← tbxListGetLastItem target list
      return .pointer result
  | .getPreviousItem itemRef => do
      let result ← tbxListGetPreviousItem target list itemRef
      return .pointer result
  | .getNextItem itemRef => do
      let result ← tbxListGetNextItem target list itemRef
      return .pointer result
  | .swapItems item1 item2 => do
      tbxListSwapItems target list item1 item2
      return .none
  | .sortItems compareItemsFcn => do
      tbxListSortItems target list compareItemsFcn
      return .none

/-- No argument is `NULL`. -/
def Valid : ListOperation → Prop
  | .insertItemFront item | .insertItemBack item | .removeItem item | .getPreviousItem item
  | .getNextItem item => item ≠ null
  | .insertItemBefore item itemRef | .insertItemAfter item itemRef =>
      item ≠ null ∧ itemRef ≠ null
  | .swapItems item1 item2 => item1 ≠ null ∧ item2 ≠ null
  | .sortItems compareItemsFcn => compareItemsFcn.isSome
  | _ => True

instance (operation : ListOperation) : Decidable operation.Valid :=
  match operation with
  | .insertItemFront _ | .insertItemBack _ | .removeItem _ | .getPreviousItem _ | .getNextItem _ =>
      inferInstanceAs (Decidable (_ ≠ _))
  | .insertItemBefore _ _ | .insertItemAfter _ _ | .swapItems _ _ =>
      inferInstanceAs (Decidable (_ ∧ _))
  | .sortItems _ => inferInstanceAs (Decidable (_ = true))
  | .clear | .getSize | .getFirstItem | .getLastItem => inferInstanceAs (Decidable True)

def IsSort : ListOperation → Prop
  | .sortItems _ => True
  | _ => False

instance (operation : ListOperation) : Decidable operation.IsSort :=
  match operation with
  | .sortItems _ => inferInstanceAs (Decidable True)
  | .clear | .getSize | .insertItemFront _ | .insertItemBack _ | .insertItemBefore _ _
  | .insertItemAfter _ _ | .removeItem _ | .getFirstItem | .getLastItem | .getPreviousItem _
  | .getNextItem _ | .swapItems _ _ => inferInstanceAs (Decidable False)

/-- What an operation does to a sequence of items: its reply and the sequence
afterwards. -/
def apply (items : List Nat) : ListOperation → ListReply × List Nat
  | .clear => (.none, [])
  | .getSize => (.size items.length, items)
  | .insertItemFront item => (.status .ok, item :: items)
  | .insertItemBack item => (.status .ok, items ++ [item])
  | .insertItemBefore item itemRef =>
      if itemRef ∈ items then (.status .ok, Sequence.insertBefore item itemRef items)
      else (.status .error, items)
  | .insertItemAfter item itemRef =>
      if itemRef ∈ items then (.status .ok, Sequence.insertAfter item itemRef items)
      else (.status .error, items)
  | .removeItem item => (.none, items.erase item)
  | .getFirstItem => (.pointer (items.head?.getD null), items)
  | .getLastItem => (.pointer (items.getLast?.getD null), items)
  | .getPreviousItem itemRef => (.pointer ((Sequence.previous itemRef items).getD null), items)
  | .getNextItem itemRef => (.pointer ((Sequence.next itemRef items).getD null), items)
  | .swapItems item1 item2 => (.none, Sequence.swap item1 item2 items)
  | .sortItems (some compareItemsFcn) =>
      (.none, Sequence.exchangeSort (greater compareItemsFcn) items)
  | .sortItems none => (.none, items)

/-- The operation adds an item to the sequence, for which it needs memory. -/
def Allocates (items : List Nat) : ListOperation → Prop
  | .insertItemFront _ | .insertItemBack _ => True
  | .insertItemBefore _ itemRef | .insertItemAfter _ itemRef => itemRef ∈ items
  | _ => False

end ListOperation

/-! ## What an application may call -/

abbrev ListExchange := Exchange State ListCall ListReply

/-- The lists created and not yet deleted. -/
def liveLists : List ListExchange → List Nat
  | [] => []
  | ⟨.create, .pointer list, _, _⟩ :: earlier =>
      if list ≠ null then list :: liveLists earlier else liveLists earlier
  | ⟨.delete list, _, _, _⟩ :: earlier => (liveLists earlier).erase list
  | _ :: earlier => liveLists earlier

/-- The blocks the application holds after a call of the pool module. -/
def PoolCall.blocksAfter : PoolCall → PoolReply → List Nat → List Nat
  | .allocate _, .pointer data, own | .allocateAuto _, .pointer data, own =>
      if data ≠ null then data :: own else own
  | .release data, _, own => own.erase data
  | _, _, own => own

/-- The blocks the application allocated and did not release. -/
def ownBlocks : List ListExchange → List Nat
  | [] => []
  | ⟨.pool call, .pool reply, _, _⟩ :: earlier => call.blocksAfter reply (ownBlocks earlier)
  | _ :: earlier => ownBlocks earlier

/-- The call uses no block but the given ones. -/
def PoolCall.Uses (own : List Nat) : PoolCall → Prop
  | .release memPtr | .write memPtr _ _ => memPtr ∈ own
  | _ => True

instance (own : List Nat) (call : PoolCall) : Decidable (call.Uses own) :=
  match call with
  | .release _ | .write _ _ _ => inferInstanceAs (Decidable (_ ∈ _))
  | .create _ _ | .allocate _ | .allocateAuto _ | .heapAllocate _ => inferInstanceAs (Decidable True)

/-- No list that is empty is sorted. -/
def SortsItems (target : Target) (state : State) : ListCall → Prop
  | .on list operation =>
      operation.IsSort → state.mem (target.field list TbxList.nodeCount) ≠ 0
  | _ => True

instance (target : Target) (state : State) (call : ListCall) :
    Decidable (SortsItems target state call) :=
  match call with
  | .on _ _ => inferInstanceAs (Decidable (_ → _))
  | .create | .delete _ | .pool _ => inferInstanceAs (Decidable True)

namespace ListCall

variable (target : Target)

def perform : ListCall → Code ListReply
  | .create => do
      let result ← tbxListCreate target
      return .pointer result
  | .delete list => do
      tbxListDelete target list
      return .none
  | .on list operation => operation.perform target list
  | .pool call => do
      let reply ← call.perform target
      return .pool reply

/-- Lists are live, no argument is `NULL`, and the pools are used for the
application's own blocks. -/
def Valid (history : List ListExchange) (state : State) : ListCall → Prop
  | .create => True
  | .delete list => list ∈ liveLists history
  | .on list operation => list ∈ liveLists history ∧ operation.Valid
  | .pool call => call.Allowed target state ∧ call.Uses (ownBlocks history)

instance (history : List ListExchange) (state : State) (call : ListCall) :
    Decidable (call.Valid target history state) :=
  match call with
  | .create => inferInstanceAs (Decidable True)
  | .delete _ => inferInstanceAs (Decidable (_ ∈ _))
  | .on _ _ | .pool _ => inferInstanceAs (Decidable (_ ∧ _))

/-- A condition on the block sizes that the application may create. -/
def BlockSize (condition : Nat → Prop) : ListCall → Prop
  | .pool call => call.BlockSize condition
  | _ => True

instance (condition : Nat → Prop) [DecidablePred condition] (call : ListCall) :
    Decidable (call.BlockSize condition) :=
  match call with
  | .pool call => inferInstanceAs (Decidable (call.BlockSize condition))
  | .create | .delete _ | .on _ _ => inferInstanceAs (Decidable True)

end ListCall

/-- The module as its application uses it, from program start. -/
def listInterface (target : Target) : Interface State Fault ListCall ListReply where
  initial := .initial
  allowed := fun history state call => call.Valid target history state ∧ SortsItems target state call
  perform := ListCall.perform target

instance (target : Target) (history : List ListExchange) (state : State) (call : ListCall) :
    Decidable ((listInterface target).allowed history state call) :=
  inferInstanceAs (Decidable (_ ∧ _))

/-! ## What the module is for -/

/-- The sequence of items that each handle stands for. -/
abbrev Sequences := Nat → Option (List Nat)

/-- One call, told of sequences. Where memory is short for so many objects, a
creation or insertion may fail. -/
inductive SpecStep (short : Nat → Prop) (sequences : Sequences) :
    ListCall → ListReply → Sequences → Prop
  | create {list : Nat} (ne_null : list ≠ null) (fresh : sequences list = none) :
      SpecStep short sequences .create (.pointer list) (Function.update sequences list (some []))
  | createFailed (memory : short 2) : SpecStep short sequences .create (.pointer null) sequences
  | delete {list : Nat} {items : List Nat} (live : sequences list = some items) :
      SpecStep short sequences (.delete list) .none (Function.update sequences list none)
  | on {list : Nat} {items : List Nat} {operation : ListOperation}
      (live : sequences list = some items) :
      SpecStep short sequences (.on list operation) (operation.apply items).1
        (Function.update sequences list (some (operation.apply items).2))
  | onFailed {list : Nat} {items : List Nat} {operation : ListOperation}
      (live : sequences list = some items) (allocates : operation.Allocates items)
      (memory : short 1) :
      SpecStep short sequences (.on list operation) (.status .error) sequences
  | pool {call : PoolCall} {reply : PoolReply} :
      SpecStep short sequences (.pool call) (.pool reply) sequences

end MicroTbx

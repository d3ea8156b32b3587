import MicroTbx.Foundation.Located
import MicroTbx.List.Calls
import MicroTbx.List.Interface
import MicroTbx.List.Sections
import MicroTbx.MemPool.Supply

/-! # Calls that search before they change a list

A removal and the insertions next to a reference item search the list for a
node and change the list there in a later section. An insertion allocates its
node in between, and a removal releases its node at the end. Executed alone,
each is a task on the sequence of items that draws on the supply of blocks.
-/

namespace MicroTbx

open Program

/-- The calls that search for a node. -/
inductive LocatingCall
  | insertItemBefore (item itemRef : Nat)
  | insertItemAfter (item itemRef : Nat)
  | removeItem (item : Nat)
  deriving DecidableEq

namespace LocatingCall

def operation : LocatingCall → ListOperation
  | .insertItemBefore item itemRef => .insertItemBefore item itemRef
  | .insertItemAfter item itemRef => .insertItemAfter item itemRef
  | .removeItem item => .removeItem item

/-- The item that is searched for. -/
def reference : LocatingCall → Nat
  | .insertItemBefore _ itemRef | .insertItemAfter _ itemRef => itemRef
  | .removeItem item => item

def removes : LocatingCall → Bool
  | .removeItem _ => true
  | _ => false

/-- The call as a task on a sequence of items. -/
def task (call : LocatingCall) : Located.Task (List Nat) where
  present := fun items => call.reference ∈ items
  change := fun items => (call.operation.apply items).2
  adds := call.removes

theorem reference_ne_null {call : LocatingCall} (hvalid : call.operation.Valid) :
    call.reference ≠ null := by
  cases call with
  | insertItemBefore => exact hvalid.2
  | insertItemAfter => exact hvalid.2
  | removeItem => exact hvalid

/-- The reply of a call that changed the list or not. -/
def reply (call : LocatingCall) (changed : Bool) : ListReply :=
  if call.removes then .none else .status (if changed then .ok else .error)

end LocatingCall

/-- The calls that insert, with the item, the place of their checks, and the
section that links its node. -/
inductive Inserting (target : Target) :
    LocatingCall → Nat → Site → (Nat → Nat → Nat → Code Unit) → Prop
  | before {item itemRef : Nat} : Inserting target (.insertItemBefore item itemRef) item
      .tbxListInsertItemBefore (linkBefore target)
  | after {item itemRef : Nat} : Inserting target (.insertItemAfter item itemRef) item
      .tbxListInsertItemAfter (linkAfter target)

section Definitions

variable (target : Target) (list item : Nat) (state : State)

/-- The node that a search in a state finds. -/
def foundNode : Nat :=
  match (tbxListFindListNode target list item).run 0 state with
  | .done result _ _ => result
  | _ => null

/-- The state holds a list with these items, among others. -/
def Shows (items : List Nat) : Prop :=
  ∃ owner views lists app, ListsAt target owner views lists app state ∧
    ∃ view ∈ lists, view.header = list ∧ view.items target state = items

/-- What becomes free when the node that a search finds is released. -/
def foundGain (views : List PoolView) : Nat :=
  regained target views (3 * target.word) (foundNode target list item state)

end Definitions

variable {target : Target} {owner : Ownership} {views : List PoolView}
  {lists rest : List ListView} {view : ListView} {app nodes front back : List Nat}
  {state after middle : State} {cells : Cells} {list node item ref first second : Nat}
  {call : LocatingCall}

/-! ## Searching -/

theorem Found.unique (hapart : Apart target (list :: nodes))
    (hfirst : Found cells nodes item first) (hsecond : Found cells nodes item second) :
    first = second := by
  rcases hfirst with ⟨rfl, hnone⟩ | ⟨front, back, hsplit, hnot, hitem⟩
  · by_contra hne
    exact hnone ((hsecond.ne_null_iff hapart).mp (Ne.symm hne))
  · rcases hsecond with ⟨rfl, hnone⟩ | ⟨front', back', hsplit', hnot', hitem'⟩
    · refine absurd ?_ hnone
      rw [hsplit, itemsOf_append, itemsOf_cons, hitem]
      exact List.mem_append_cons_self
    · have heq := hsplit.symm.trans hsplit'
      have hlength := (idxOf_itemsOf hsplit hnot hitem).symm.trans
        (idxOf_itemsOf hsplit' hnot' hitem')
      obtain ⟨-, hrest⟩ := List.append_inj heq hlength
      exact (List.cons.inj hrest).1

theorem Found.congr {other : Cells} (hfound : Found cells nodes item node)
    (hsame : ∀ data ∈ nodes, other data ListNode.itemPtr = cells data ListNode.itemPtr) :
    Found other nodes item node := by
  rcases hfound with ⟨hnull, hnot⟩ | ⟨front, back, rfl, hnot, hitem⟩
  · exact .inl ⟨hnull, itemsOf_congr hsame ▸ hnot⟩
  · have hfront : itemsOf other front = itemsOf cells front :=
      itemsOf_congr fun data hdata => hsame data (List.mem_append_left _ hdata)
    refine .inr ⟨front, back, rfl, hfront ▸ hnot, ?_⟩
    rw [hsame node List.mem_append_cons_self, hitem]

/-- A search in the state finds what the cells tell. -/
theorem ListsAt.found (hlists : ListsAt target owner views lists app state) (hview : view ∈ lists)
    (hitem : item ≠ null) :
    Found (cellsOf target state.mem) view.nodes item (foundNode target view.header item state) := by
  have hcells := hlists.listCells hview
  obtain ⟨result, after, hrun, -, hfound⟩ :=
    (tbxListFindListNode_spec (.refl state _ _) hcells hitem).run 0
  rw [foundNode, hrun]
  exact hfound

theorem ListsAt.foundNode_eq (hlists : ListsAt target owner views lists app state)
    (hview : view ∈ lists) (hitem : item ≠ null)
    (hfound : Found (cellsOf target state.mem) view.nodes item node) :
    foundNode target view.header item state = node :=
  (hlists.found hview hitem).unique (hlists.listCells hview).apart hfound

/-! ## Insertions -/

namespace Inserting

variable {site : Site} {link : Nat → Nat → Nat → Code Unit}
  (hinserting : Inserting target call item site link)
include hinserting

theorem removes : call.removes = false := by cases hinserting <;> rfl

theorem valid (hvalid : call.operation.Valid) : item ≠ null ∧ call.reference ≠ null := by
  cases hinserting <;> exact hvalid

theorem perform : call.operation.perform target list = (do
    let result ← insertNextTo target site link list item call.reference
    return .status result) := by
  cases hinserting <;> rfl

theorem atomic : (link list node ref).Atomic := by
  cases hinserting with
  | before => exact linkBefore_atomic
  | after => exact linkAfter_atomic

/-- The place of the new node is told by the node that was found. -/
theorem place (hsplit : nodes = front ++ node :: back) (hnot : call.reference ∉ itemsOf cells front)
    (hitem : cells node ListNode.itemPtr = call.reference) :
    ∃ first last, nodes = first ++ last ∧
      LinksBetween target list first last (fun new => link list new node) ∧
      call.task.change (itemsOf cells nodes) = itemsOf cells first ++ item :: itemsOf cells last := by
  have hitems : itemsOf cells nodes =
      itemsOf cells front ++ call.reference :: itemsOf cells back := by
    rw [hsplit, itemsOf_append, itemsOf_cons, hitem]
  have hmem : call.reference ∈ itemsOf cells nodes := hitems ▸ List.mem_append_cons_self
  cases hinserting with
  | @before item ref =>
      have hchange : (LocatingCall.insertItemBefore item ref).task.change (itemsOf cells nodes) =
          Sequence.insertBefore item ref (itemsOf cells nodes) := congrArg Prod.snd (if_pos hmem)
      refine ⟨front, node :: back, hsplit, linksBefore, hchange.trans ?_⟩
      rw [hitems, itemsOf_cons, hitem]
      exact Sequence.insertBefore_split hnot
  | @after item ref =>
      have hchange : (LocatingCall.insertItemAfter item ref).task.change (itemsOf cells nodes) =
          Sequence.insertAfter item ref (itemsOf cells nodes) := congrArg Prod.snd (if_pos hmem)
      refine ⟨front ++ [node], back, by rw [hsplit, List.append_cons], linksAfter, hchange.trans ?_⟩
      rw [hitems, itemsOf_append, itemsOf_cons, hitem, List.append_assoc]
      exact Sequence.insertAfter_split hnot

end Inserting

/-- Every call is an insertion or a removal. -/
theorem LocatingCall.cases (target : Target) (call : LocatingCall) :
    (∃ item, call = .removeItem item) ∨ ∃ item site link, Inserting target call item site link := by
  cases call with
  | insertItemBefore => exact .inr ⟨_, _, _, .before⟩
  | insertItemAfter => exact .inr ⟨_, _, _, .after⟩
  | removeItem item => exact .inl ⟨item, rfl⟩

/-! ## Allocating a node -/

/-- The node is allocated as long as the supply lasts. -/
theorem ListsAt.allocateGrowing_supply (hlists : ListsAt target owner views lists app state) :
    (MicroTbx.allocateGrowing target (3 * target.word)).Returns state fun data after =>
      ∃ larger others, SameCells (cellsOf target state.mem) (cellsOf target after.mem) lists ∧
        ((data = null ∧ supply target views (3 * target.word) state = 0 ∧
            supply target others (3 * target.word) after = 0 ∧
            ListsAt target larger others lists app after) ∨
          (data ≠ null ∧ supply target others (3 * target.word) after + 1 =
              supply target views (3 * target.word) state ∧
            Holds target larger data ∧ ListsAt target larger others lists (data :: app) after)) := by
  have hpools := hlists.pools
  apply (hpools.allocate objectSize_pos).bind
  rintro data after (⟨-, others, htakes⟩ | ⟨hrefused, rfl, rfl⟩)
  · obtain ⟨hafter, hsame⟩ := htakes.listsAt hlists
    obtain ⟨hstock, hmakeable⟩ := htakes.supply hpools
    rw [if_neg (htakes.ne_null hpools)]
    apply (returns_pure _).mpr
    refine ⟨owner, others, hsame, .inr ⟨htakes.ne_null hpools, ?_, htakes.holds hpools, hafter⟩⟩
    unfold supply
    omega
  · have hnone := stock_eq_zero hrefused
    rw [if_pos rfl]
    apply (hpools.create Nat.one_pos objectSize_pos objectSize_sound).bind
    rintro status middle ⟨larger, middles, hcreates⟩
    obtain ⟨hmiddle, hsame⟩ := hcreates.listsAt hlists
    cases status with
    | error =>
        obtain ⟨hbefore, hafter, hstock⟩ := hcreates.supply_error hpools
        rw [if_neg (by simp)]
        refine (returns_pure _).mpr ⟨larger, middles, hsame, .inl ⟨rfl, ?_, ?_, hmiddle⟩⟩
        · rw [supply, hnone, hbefore]
        · rw [supply, hafter]
          omega
    | ok =>
        obtain ⟨hmakeable, hpos, hle⟩ := hcreates.supply_ok hpools objectSize_pos
        rw [if_pos rfl]
        apply (hmiddle.pools.allocate objectSize_pos).mono
        rintro data after (⟨-, others, htakes⟩ | ⟨hrefused, -⟩)
        · obtain ⟨hafter, hlater⟩ := htakes.listsAt hmiddle
          obtain ⟨hstock, hkept⟩ := htakes.supply hmiddle.pools
          refine ⟨larger, others, hsame.trans hlater, .inr ⟨htakes.ne_null hmiddle.pools, ?_,
            htakes.holds hmiddle.pools, hafter⟩⟩
          unfold supply
          omega
        · rw [stock_eq_zero hrefused] at hpos
          cases hpos

/-! ## Calls that nothing interrupts -/

section Definitions

variable (target : Target) (views : List PoolView) (view : ListView) (rest : List ListView)
  (app : List Nat) (state : State) (call : LocatingCall)

/-- The call was a task on the items of the list and the supply of blocks. -/
def CompletesAlone (reply : ListReply) (after : State) : Prop :=
  ∃ changed items left, reply = call.reply changed ∧
    Located.Alone call.task (foundGain target view.header call.reference state views)
      (view.items target state) (supply target views (3 * target.word) state) changed items left ∧
    ∃ larger others nodes, ListsAt target larger others (⟨view.header, nodes⟩ :: rest) app after ∧
      itemsOf (cellsOf target after.mem) nodes = items ∧
      supply target others (3 * target.word) after = left

end Definitions

namespace ListsAt

/-- What a search leaves as it was. -/
theorem searched (hlists : ListsAt target owner views (view :: rest) app state)
    (hsearched : Edited target view.header view.nodes state middle (cellsOf target state.mem)) :
    ListsAt target owner views (view :: rest) app middle ∧
      view.items target middle = view.items target state ∧
      supply target views (3 * target.word) middle = supply target views (3 * target.word) state := by
  obtain ⟨hmiddle, -, hself⟩ := hlists.edited hsearched (hlists.shape view List.mem_cons_self)
  exact ⟨hmiddle, hself.items List.mem_cons_self, supply_same hsearched.allocated⟩

/-- A search that finds no node ends the call. -/
theorem absent_alone (hlists : ListsAt target owner views (view :: rest) app state)
    (hsearched : Edited target view.header view.nodes state after (cellsOf target state.mem))
    (hnot : call.reference ∉ view.items target state) :
    CompletesAlone target views view rest app state call (call.reply false) after := by
  obtain ⟨hafter, hitems, hsupply⟩ := hlists.searched hsearched
  exact ⟨false, _, _, rfl, .absent hnot, owner, views, view.nodes, hafter, hitems, hsupply⟩

theorem insertNextTo_alone (hlists : ListsAt target owner views (view :: rest) app state)
    {site : Site} {link : Nat → Nat → Nat → Code Unit}
    (hinserting : Inserting target call item site link) (hvalid : call.operation.Valid) :
    (MicroTbx.insertNextTo target site link view.header item call.reference).Returns state
      fun status => CompletesAlone target views view rest app state call (.status status) := by
  obtain ⟨hedited, hcells⟩ := hlists.entry
  have hlist := hcells.apart.ne_null view.header List.mem_cons_self
  obtain ⟨hitem, href⟩ := hinserting.valid hvalid
  have hreply : ∀ changed, call.reply changed = .status (if changed then .ok else .error) :=
    fun changed => if_neg (by simp [hinserting.removes])
  rw [insertNextTo_eq hlist hitem href]
  apply (tbxListFindListNode_spec hedited hcells href).bind
  rintro node middle ⟨hsearched, hfound⟩
  have hmem := hfound.ne_null_iff hcells.apart
  rcases hfound with ⟨rfl, hnot⟩ | ⟨before, behind, hsplit, hnot, hitemPtr⟩
  · rw [if_neg (by simp)]
    have halone := hlists.absent_alone hsearched hnot
    rw [hreply] at halone
    exact (returns_pure _).mpr halone
  have hnode : node ∈ view.nodes := hsplit ▸ List.mem_append_cons_self
  have hne := hcells.apart.ne_null node (List.mem_cons_of_mem _ hnode)
  obtain ⟨front, back, hparts, hlinks, hchange⟩ := hinserting.place hsplit hnot hitemPtr
  obtain ⟨hmiddle, hitems, hsupply⟩ := hlists.searched hsearched
  rw [if_pos hne]
  apply hmiddle.allocateGrowing_supply.bind
  rintro new between ⟨larger, others, hsame, ⟨rfl, hnone, hleft, hbetween⟩ |
    ⟨hnew, hleft, hholds, hbetween⟩⟩
  · rw [if_neg (by simp)]
    apply (returns_pure _).mpr
    refine ⟨false, _, _, (hreply false).symm, .refused hinserting.removes (hsupply ▸ hnone), larger,
      others, view.nodes, hbetween, (hsame.items List.mem_cons_self).trans hitems, ?_⟩
    rw [hleft, ← hsupply, hnone]
  · rw [if_pos hnew]
    apply (hbetween.link hholds hparts hlinks).mono
    rintro status after ⟨rfl, ⟨cells, hlinked⟩, hafter, hafterItems, -⟩
    have hsupplied : supply target views (3 * target.word) state =
        supply target others (3 * target.word) after + 1 := by
      rw [supply_same hlinked.allocated, hleft, hsupply]
    refine ⟨true, _, _, (hreply true).symm, .taken (hmem.mp hne) hinserting.removes hsupplied,
      larger, others, _, hafter, ?_, rfl⟩
    have hbetweenItems : view.items target between = view.items target state :=
      (hsame.items List.mem_cons_self).trans hitems
    rw [ListView.items, ListView.items, hparts] at hbetweenItems
    obtain ⟨hfront, hback⟩ := itemsOf_parts hbetweenItems
    rw [hafterItems, hfront, hback]
    exact hchange.symm

theorem removeItem_alone (hlists : ListsAt target owner views (view :: rest) app state)
    (hitem : item ≠ null) :
    (tbxListRemoveItem target view.header item).Returns state fun _ =>
      CompletesAlone target views view rest app state (.removeItem item) .none := by
  obtain ⟨hedited, hcells⟩ := hlists.entry
  have hlist := hcells.apart.ne_null view.header List.mem_cons_self
  rw [tbxListRemoveItem_eq hlist hitem]
  apply (tbxListFindListNode_spec hedited hcells hitem).bind
  rintro node middle ⟨hsearched, hfound⟩
  have hmem := hfound.ne_null_iff hcells.apart
  have hgain := hlists.foundNode_eq List.mem_cons_self hitem hfound
  rcases hfound with ⟨rfl, hnot⟩ | ⟨front, back, hsplit, hnot, hitemPtr⟩
  · rw [if_neg (by simp)]
    exact (returns_pure _).mpr (hlists.absent_alone hsearched hnot)
  have hnode : node ∈ view.nodes := hsplit ▸ List.mem_append_cons_self
  have hne := hcells.apart.ne_null node (List.mem_cons_of_mem _ hnode)
  rw [if_pos hne]
  apply (hlists.unlinkNode hsplit hsearched).bind
  rintro _ between ⟨⟨cells, hunlinked⟩, hbetween, hitems, -⟩
  apply (hbetween.givesBack List.mem_cons_self).mono
  rintro _ after ⟨others, hgives, hafter, -, hsame⟩
  obtain ⟨hstock, hmakeable⟩ := hgives.supply hbetween.pools
  rw [List.erase_cons_head] at hafter
  refine ⟨true, _, _, rfl, .added (hmem.mp hne) rfl, owner, others, _, hafter, ?_, ?_⟩
  · rw [hsame.items List.mem_cons_self, hitems, itemsOf_append]
    have hitemsBefore : view.items target state = itemsOf (cellsOf target state.mem) front ++
        item :: itemsOf (cellsOf target state.mem) back := by
      rw [ListView.items, hsplit, itemsOf_append, itemsOf_cons, hitemPtr]
    rw [hitemsBefore]
    exact (Sequence.erase_split hnot).symm
  · rw [foundGain, LocatingCall.reference, hgain, supply, hstock, hmakeable,
      makeable_same hunlinked.allocated, supply]
    omega

/-- A call that nothing interrupts is the task that it stands for. -/
theorem perform_alone (hlists : ListsAt target owner views (view :: rest) app state)
    (hvalid : call.operation.Valid) :
    (call.operation.perform target view.header).Returns state
      (CompletesAlone target views view rest app state call) := by
  rcases call.cases target with ⟨item, rfl⟩ | ⟨item, site, link, hinserting⟩
  · apply (hlists.removeItem_alone hvalid).bind
    exact fun _ _ halone => (returns_pure _).mpr halone
  · rw [hinserting.perform]
    apply (hlists.insertNextTo_alone hinserting hvalid).bind
    exact fun _ _ halone => (returns_pure _).mpr halone

end ListsAt

end MicroTbx

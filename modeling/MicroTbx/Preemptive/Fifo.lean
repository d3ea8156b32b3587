import MicroTbx.Foundation.QueueTally
import MicroTbx.Preemptive.Calls
import MicroTbx.List.Refinement

/-! # A list as a FIFO buffer, under preemption

Contexts append different items to a list that was empty, and one context reads
the first item and then removes it, over and over. Every call is made of
several sections. The moves are told as an account of a queue, and the items in
memory agree with it between any two of them.
-/

namespace MicroTbx

open Program

section Definitions

variable {Context : Type} (target : Target) (list : Nat) (consumer : Context)

/-- The item that a call is to append. -/
def ListCall.appends : ListCall → Option Nat
  | .on _ (.insertItemBack item) => some item
  | _ => none

/-- What a move is for the queue. A step that changes the number of nodes has
linked the item of the request, or else removed the first one. -/
def tallied (tally : QueueTally Context Nat) (context : Context) :
    ListMove → QueueTally Context Nat
  | .called request =>
      match request.appends with
      | some item => tally.offer context item
      | none => tally.ask
  | .stepped request before after =>
      if after.mem (target.field list TbxList.nodeCount) =
          before.mem (target.field list TbxList.nodeCount) then tally
      else
        match request.appends with
        | some item => tally.link item
        | none => tally.removeFront
  | .returned request result =>
      match request.appends, result with
      | some item, .status .ok => tally.accept item
      | some item, .status .error => tally.reject item
      | none, .pointer item => if item = null then tally else tally.obtainFront item
      | _, _ => tally

/-- The account of all moves. -/
def account : ListMoves Context → QueueTally Context Nat
  | [] => .empty
  | (context, move) :: earlier => tallied target list (account earlier) context move

/-- Producers append items that were not offered before. The consumer reads the
first item, and if it was given one it removes that next. -/
def FifoCall (tally : QueueTally Context Nat) (context : Context) : ListCall → Prop
  | .on handle (.insertItemBack item) => handle = list ∧ context ≠ consumer ∧ item ≠ null ∧
      item ∉ tally.offered.map Prod.snd
  | .on handle .getFirstItem => handle = list ∧ context = consumer ∧ tally.pending = none
  | .on handle (.removeItem item) =>
      handle = list ∧ context = consumer ∧ tally.pending = some item
  | _ => False

instance [DecidableEq Context] (tally : QueueTally Context Nat) (context : Context)
    (call : ListCall) :
    Decidable (FifoCall list consumer tally context call) :=
  match call with
  | .on _ operation =>
      match operation with
      | .insertItemBack _ | .getFirstItem | .removeItem _ => inferInstanceAs (Decidable (_ ∧ _))
      | .clear | .getSize | .insertItemFront _ | .insertItemBefore _ _ | .insertItemAfter _ _
      | .getLastItem | .getPreviousItem _ | .getNextItem _ | .swapItems _ _ | .sortItems _ =>
          inferInstanceAs (Decidable False)
  | .create | .delete _ | .pool _ => inferInstanceAs (Decidable False)

/-- Any number of producers and one consumer. -/
def fifoClients : Clients Context State Fault ListCall ListReply where
  allowed := fun moves => FifoCall list consumer (account target list moves)
  perform := ListCall.perform target

instance [DecidableEq Context] (moves : ListMoves Context) (context : Context)
    (request : ListCall) : Decidable ((fifoClients target list consumer).allowed moves context request) :=
  inferInstanceAs (Decidable (FifoCall _ _ _ _ _))

/-- What is promised between any two steps. -/
structure FifoAt (tally : QueueTally Context Nat) (state : State) : Prop where
  /-- What the consumer was given is what was linked first, in this order. -/
  inOrder : tally.obtained <+: tally.linked
  once : tally.linked.Nodup
  /-- What was linked and not removed is in the list, and what was removed is
  what the consumer was given, but for the item it is about to remove. -/
  waiting : ∃ owner views lists app, ListsAt target owner views lists app state ∧
    ∃ view ∈ lists, view.header = list ∧
      tally.linked = tally.linked.take tally.removed ++ view.items target state
  removed : tally.removed ≤ tally.obtained.length ∧ tally.obtained.length ≤ tally.removed + 1
  /-- Insertions that returned `TBX_OK` were linked, and no others. -/
  accepted : ∀ item ∈ tally.accepted, item ∈ tally.linked
  rejected : ∀ item ∈ tally.rejected, item ∉ tally.linked

/-- The list stays, and the nodes that the consumer has seen stay in front. -/
def Appends (context : Context) (world next : World Context) : Prop :=
  ∀ view ∈ world.lists, view.header = list → ∃ other ∈ next.lists, other.header = list ∧
    (context = consumer → view.nodes <+: other.nodes)

/-- What the consumer knows between two calls. -/
def Waits (tally : QueueTally Context Nat) : Prop :=
  (tally.pending = none → tally.obtained.length = tally.removed) ∧
    ∀ item, tally.pending = some item → item ≠ null ∧
      tally.obtained.length = tally.removed + 1 ∧ tally.linked[tally.removed]? = some item

/-- A producer's item has this fate when its call has a result. -/
def Settles (tally : QueueTally Context Nat) (context : Context) (item : Nat)
    (status : Status) : Prop :=
  (context, item) ∈ tally.offered ∧ item ∉ tally.rejected ∧
    (status = .ok → item ∈ tally.linked) ∧ (status = .error → item ∉ tally.linked)

/-- What the consumer knows when its call has a result. -/
def Consumed (tally : QueueTally Context Nat) (result : ListReply) : Prop :=
  tally.pending = none ∧ tally.obtained.length = tally.removed ∧ ∀ item,
    result = .pointer item → item ≠ null → tally.linked[tally.removed]? = some item

def fifoUsage : Usage Context where
  inv := fun world => ∃ view ∈ world.lists, view.header = list ∧
    (account target list world.moves).Sound (view.items target world.state)
  rely := fun context world next => Appends list consumer context world next ∧
    (account target list world.moves).Onward consumer context (account target list next.moves)
  meets := fun _ => True
  idle := fun context world => context = consumer → Waits (account target list world.moves)
  done := fun context request result world =>
    match request.appends with
    | some item => context ≠ consumer ∧ ∃ status, result = .status status ∧
        Settles (account target list world.moves) context item status
    | none => context = consumer ∧ Consumed (account target list world.moves) result

end Definitions

variable {Context : Type} {target : Target} {list : Nat} {consumer context other : Context} {world next : World Context}
  {request : ListCall} {reply : ListReply} {tally later : QueueTally Context Nat} {item node : Nat}

/-- The discipline of the queue. -/
abbrev fifo (target : Target) (list : Nat) (consumer : Context) :=
  (fifoUsage target list consumer).discipline target

/-! ## Moves and the account -/

/-- Where the lists stay as they are the account does too. -/
theorem account_quiet (hinv : (fifoUsage target list consumer).inv world)
    (hmoves : Moves target context (.stepped request world.state next.state) world next)
    (hkeeps : KeepsLists target world next) :
    account target list next.moves = account target list world.moves := by
  obtain ⟨view, hview, rfl, -⟩ := hinv
  rw [hmoves.moves, account, tallied, if_pos]
  exact hkeeps.cells view.header (mem_blocksOf hview List.mem_cons_self) _ (by norm_num)

theorem fifo_private : (fifoUsage target list consumer).Private target := by
  rintro context request world next hmoves hkeeps - hinv
  have haccount := account_quiet hinv hmoves hkeeps
  obtain ⟨view, hview, hheader, hsound⟩ := hinv
  refine ⟨⟨view, hkeeps.lists ▸ hview, hheader, ?_⟩, fun other _ => ⟨?_, ?_⟩⟩
  · rw [haccount, ListView.items, hkeeps.cells.items hview]
    exact hsound
  · exact fun view hview hheader => ⟨view, hkeeps.lists ▸ hview, hheader, fun _ => List.prefix_rfl⟩
  · rw [haccount]
    exact .refl _ _ _

/-- Knowledge about the account that moves of others cannot make false lasts. -/
theorem lasting_account (claim : QueueTally Context Nat → Prop)
    (hclaim : ∀ {tally later}, claim tally → tally.Onward consumer context later → claim later) :
    Lasting target (fifoUsage target list consumer) context
      fun world => claim (account target list world.moves) where
  stable := fun _ _ hworld _ _ _ hrely => hclaim hworld hrely.2.2
  own := by
    intro request world next hworld hinv hmoves hkeeps _
    rw [account_quiet hinv hmoves hkeeps]
    exact hworld

theorem Settles.onward {status : Status} (hsettles : Settles tally context item status)
    (honward : tally.Onward consumer context later) : Settles later context item status := by
  obtain ⟨hoffered, hrejected, hlinked, hnot⟩ := hsettles
  refine ⟨honward.offered item hoffered, mt (honward.ownRejected item hoffered).mp hrejected,
    fun hok => honward.linked.subset (hlinked hok), fun herror => ?_⟩
  exact mt (honward.ownLinked item hoffered).mp (hnot herror)

theorem Consumed.onward (hconsumed : Consumed tally reply)
    (honward : tally.Onward consumer consumer later) : Consumed later reply := by
  obtain ⟨hpending, hlength, hnext⟩ := hconsumed
  obtain ⟨hobtained, hremoved, hlater⟩ := honward.taken rfl
  refine ⟨hlater.trans hpending, by rw [hobtained, hremoved, hlength], ?_⟩
  exact fun item hreply hne => honward.next_eq (hnext item hreply hne)

theorem Waits.onward (hwaits : Waits tally) (honward : tally.Onward consumer consumer later) :
    Waits later := by
  obtain ⟨hobtained, hremoved, hpending⟩ := honward.taken rfl
  refine ⟨?_, fun item hitem => ?_⟩
  · rw [hobtained, hremoved, hpending]
    exact hwaits.1
  · obtain ⟨hne, hlength, hnext⟩ := hwaits.2 item (hpending.symm.trans hitem)
    exact ⟨hne, by rw [hobtained, hremoved, hlength], honward.next_eq hnext⟩

theorem fifo_done_stable : (fifo target list consumer).Stable context
    ((fifoUsage target list consumer).done context request reply) := by
  rintro world next hdone - - - ⟨-, -, honward⟩
  change match request.appends with | some item => _ | none => _
  change match request.appends with | some item => _ | none => _ at hdone
  split at hdone
  · obtain ⟨hne, status, hreply, hsettles⟩ := hdone
    exact ⟨hne, status, hreply, hsettles.onward honward⟩
  · obtain ⟨rfl, hconsumed⟩ := hdone
    exact ⟨rfl, hconsumed.onward honward⟩

/-! ## Sections that change the list -/

section Sections

variable {view : ListView} {rest : List ListView} {nodes : List Nat} {after : State}

/-- The account of a step that leaves the list with more or fewer nodes. -/
theorem account_relinks (hshared : world.Shared target) (hperm : world.lists.Perm (view :: rest))
    (hrelinks : Relinks target context request world rest view nodes after next)
    (hlength : nodes.length ≠ view.nodes.length) :
    account target view.header next.moves = match request.appends with
      | some item => (account target view.header world.moves).link item
      | none => (account target view.header world.moves).removeFront := by
  obtain ⟨hmoves, hlists, -, -⟩ := hrelinks
  have hbefore := nodeCount_eq hshared (hperm.mem_iff.mpr List.mem_cons_self)
  have hlater : (⟨view.header, nodes⟩ : ListView) ∈ next.lists := hlists ▸ List.mem_cons_self
  have hafter := nodeCount_eq hmoves.shared hlater
  rw [hmoves.moves, account, tallied, if_neg]
  rw [hbefore, hafter]
  exact hlength

theorem appends_relinks (hperm : world.lists.Perm (view :: rest))
    (hrelinks : Relinks target context request world rest view nodes after next)
    (hnodes : other = consumer → view.nodes <+: nodes) :
    Appends view.header consumer other world next := by
  intro found hfound hheader
  rw [hrelinks.lists]
  rcases List.mem_cons.mp (hperm.mem_iff.mp hfound) with rfl | hrest
  · exact ⟨_, List.mem_cons_self, rfl, hnodes⟩
  · exact ⟨found, List.mem_cons_of_mem _ hrest, hheader, fun _ => List.prefix_rfl⟩

end Sections

/-! ## Producers -/

/-- The item of a producer before its fate is settled. -/
def Unsettled (tally : QueueTally Context Nat) (context : Context) (item : Nat) : Prop :=
  (context, item) ∈ tally.offered ∧ item ∉ tally.rejected ∧ item ∉ tally.linked

theorem Unsettled.onward (hunsettled : Unsettled tally context item)
    (honward : tally.Onward consumer context later) : Unsettled later context item := by
  obtain ⟨hoffered, hrejected, hlinked⟩ := hunsettled
  exact ⟨honward.offered item hoffered, mt (honward.ownRejected item hoffered).mp hrejected,
    mt (honward.ownLinked item hoffered).mp hlinked⟩

theorem follows_insertItemBack [DecidableEq Context] (hcontext : context ≠ consumer)
    (hlist : list ≠ null) (hitem : item ≠ null)
    (hworld : Unsettled (account target list world.moves) context item)
    (hfresh : ¬ created context (3 * target.word) world.moves) :
    (fifo target list consumer).Follows context (.on list (.insertItemBack item))
      (fun status => (fifoUsage target list consumer).done context
        (.on list (.insertItemBack item)) (.status status))
      (tbxListInsertItemBack target list item) world := by
  have hframe : Lasting target (fifoUsage target list consumer) context
      fun world => Unsettled (account target list world.moves) context item :=
    lasting_account (Unsettled · context item) Unsettled.onward
  rw [tbxListInsertItemBack, insertAtEnd_eq hlist hitem]
  apply follows_insertion fifo_private hframe (fun _ _ _ hdata => absurd hdata List.not_mem_nil)
    (fun hfalse : False => hfalse.elim) rfl ⟨hworld, hfresh⟩ (fun _ => fifo_done_stable)
    fun _ => linkBack_atomic
  · rintro node world - ⟨hoffered, hrejected, hlinked⟩ hnode ⟨hshared, view, hview, rfl, hsound⟩
    obtain ⟨front, back, hlists⟩ := List.append_of_mem hview
    have hperm : world.lists.Perm (view :: (front ++ back)) := hlists ▸ List.perm_middle
    apply (hshared.linkNode context (.on view.header (.insertItemBack item)) hperm hnode
      (List.append_nil _).symm linksBack).mono
    rintro _ after ⟨next, hrelinks, hitems, -⟩ -
    obtain rfl := hrelinks.state
    have haccount := account_relinks hshared hperm hrelinks (by simp)
    refine ⟨next, rfl, hrelinks.moves.makes ?_ fun other hother => ⟨?_, ?_⟩, hcontext, .ok, rfl, ?_⟩
    · refine ⟨⟨view.header, view.nodes ++ [node]⟩, hrelinks.lists ▸ List.mem_cons_self, rfl, ?_⟩
      rw [haccount, ListView.items, hitems]
      exact hsound.link hoffered hlinked hrejected
    · exact appends_relinks hperm hrelinks fun _ => List.prefix_append _ _
    · rw [haccount]
      exact .link hsound hoffered hother
    · rw [haccount]
      exact ⟨hoffered, hrejected, fun _ => List.mem_append_right _ List.mem_cons_self,
        fun herror => by cases herror⟩
  · rintro world ⟨hoffered, hrejected, hlinked⟩ -
    exact ⟨hcontext, .error, rfl, hoffered, hrejected, fun hok => (by cases hok), fun _ => hlinked⟩

/-! ## The consumer -/

theorem follows_getFirstItem (hlist : list ≠ null)
    (hworld : Consumed (account target list world.moves) .none) :
    (fifo target list consumer).Follows consumer (.on list .getFirstItem)
      (fun result world => Consumed (account target list world.moves) (.pointer result))
      (tbxListGetFirstItem target list) world := by
  have hlasting : ∀ reply, Lasting target (fifoUsage target list consumer) consumer
      fun world => Consumed (account target list world.moves) reply :=
    fun reply => lasting_account (Consumed · reply) Consumed.onward
  apply follows_private fifo_private (getItemAtEnd_atomic hlist) (hlasting _).stable hworld
    fun _ => (hlasting _).stable
  rintro world ⟨hpending, hlength, -⟩ hshared hinv
  obtain ⟨view, hview, rfl, hsound⟩ := id hinv
  apply (hshared.getFirstItem consumer (.on view.header .getFirstItem) hview).mono
  rintro result after ⟨hresult, -, next, hadvances, -⟩
  refine ⟨next, hadvances, fun _ => ?_⟩
  rw [account_quiet hinv hadvances.moves hadvances.keeps]
  refine ⟨hpending, hlength, fun item hreply hne => ?_⟩
  obtain rfl := ListReply.pointer.inj hreply
  rw [← hsound.head?_eq]
  cases hhead : (view.items target world.state).head? with
  | none => exact absurd (by rw [hresult, hhead]; rfl) hne
  | some first =>
      rw [hresult, hhead]
      rfl

/-- The item that the consumer is about to remove is the first one. -/
def Removing (tally : QueueTally Context Nat) (item : Nat) : Prop :=
  tally.pending = none ∧ tally.obtained.length = tally.removed + 1 ∧
    tally.linked[tally.removed]? = some item

theorem Removing.onward (hremoving : Removing tally item)
    (honward : tally.Onward consumer consumer later) : Removing later item := by
  obtain ⟨hpending, hlength, hnext⟩ := hremoving
  obtain ⟨hobtained, hremoved, hlater⟩ := honward.taken rfl
  exact ⟨hlater.trans hpending, by rw [hobtained, hremoved, hlength], honward.next_eq hnext⟩

/-- The node at the front of the list. -/
def AtFront (list node : Nat) (world : World Context) : Prop :=
  ∃ view ∈ world.lists, view.header = list ∧ view.nodes.head? = some node

theorem AtFront.stable :
    (fifo target list consumer).Stable consumer (AtFront list node) := by
  rintro world next ⟨view, hview, hheader, hhead⟩ - - - ⟨-, happends, -⟩
  obtain ⟨other, hother, hotherHeader, hprefix⟩ := happends view hview hheader
  obtain ⟨later, hnodes⟩ := hprefix rfl
  refine ⟨other, hother, hotherHeader, ?_⟩
  rw [← hnodes, List.head?_append, hhead]
  rfl

section Removing

variable (hlist : list ≠ null) (hitem : item ≠ null)
include hlist hitem

/-- The search finds the first node. -/
theorem follows_find (hworld : Removing (account target list world.moves) item) :
    (fifo target list consumer).Follows consumer (.on list (.removeItem item))
      (fun node world => node ≠ null ∧ Removing (account target list world.moves) item ∧
        AtFront list node world) (tbxListFindListNode target list item) world := by
  have hlasting : Lasting target (fifoUsage target list consumer) consumer
      fun world => Removing (account target list world.moves) item :=
    lasting_account (Removing · item) Removing.onward
  apply follows_private fifo_private (tbxListFindListNode_atomic hlist hitem) hlasting.stable hworld
  · exact fun _ => stable_and (stable_const _) (stable_and hlasting.stable AtFront.stable)
  · rintro world ⟨hpending, hlength, hnext⟩ hshared hinv
    obtain ⟨view, hview, rfl, hsound⟩ := id hinv
    apply (hshared.findListNode consumer (.on view.header (.removeItem item)) hview hitem).mono
    rintro node after ⟨hfound, -, next, hadvances, -⟩
    have hfirst : (view.items target world.state).head? = some item := by
      rw [hsound.head?_eq]
      exact hnext
    have hin : item ∈ view.items target world.state := List.mem_of_head? hfirst
    have happart := (hshared.memory.listCells hview).apart
    refine ⟨next, hadvances, fun _ => ⟨(hfound.ne_null_iff happart).mpr hin, ?_, ?_⟩⟩
    · rw [account_quiet hinv hadvances.moves hadvances.keeps]
      exact ⟨hpending, hlength, hnext⟩
    · refine ⟨view, hadvances.keeps.lists ▸ hview, rfl, ?_⟩
      rcases hfound with ⟨-, hnot⟩ | ⟨before, behind, hsplit, hnot, -⟩
      · exact absurd hin hnot
      · -- The item is the first one, so no node is in front of its node.
        cases before with
        | nil => rw [hsplit, List.nil_append, List.head?_cons]
        | cons first between =>
            rw [ListView.items, hsplit, List.cons_append, itemsOf_cons, List.head?_cons] at hfirst
            rw [itemsOf_cons, Option.some.inj hfirst] at hnot
            exact absurd List.mem_cons_self hnot

omit hlist hitem in
/-- The first node is unlinked, and held by the consumer. -/
theorem follows_unlink (hworld : Removing (account target list world.moves) item ∧
      AtFront list node world) :
    (fifo target list consumer).Follows consumer (.on list (.removeItem item))
      (fun _ world => Consumed (account target list world.moves) .none ∧
        world.holder node = some consumer) (removeListNode target list node) world := by
  have hremoving : Lasting target (fifoUsage target list consumer) consumer
      fun world => Removing (account target list world.moves) item :=
    lasting_account (Removing · item) Removing.onward
  have hconsumed : Lasting target (fifoUsage target list consumer) consumer
      fun world => Consumed (account target list world.moves) .none :=
    lasting_account (Consumed · .none) Consumed.onward
  apply Discipline.Follows.atomic removeListNode_atomic
    (stable_and hremoving.stable AtFront.stable) hworld
    fun _ => stable_and hconsumed.stable stable_holder
  rintro world ⟨⟨hpending, hlength, hnext⟩, found, hfound, hheader, hhead⟩
    ⟨hshared, view, hview, hlistHeader, hsound⟩
  have hsame : found = view := List.inj_on_of_nodup_map hshared.memory.headers_nodup hfound hview
    (hheader.trans hlistHeader.symm)
  subst hsame hlistHeader
  obtain ⟨front, back, hlists⟩ := List.append_of_mem hview
  have hperm : world.lists.Perm (found :: (front ++ back)) := hlists ▸ List.perm_middle
  obtain ⟨behind, hsplit⟩ := List.head?_eq_some_iff.mp hhead
  apply (hshared.removeListNode consumer (.on found.header (.removeItem item)) hperm
    (show found.nodes = [] ++ node :: behind from hsplit)).mono
  rintro _ after ⟨next, hrelinks, hitems, hholder, -⟩ -
  obtain rfl := hrelinks.state
  have haccount := account_relinks hshared hperm hrelinks (by simp [hsplit])
  have htail : (⟨found.header, behind⟩ : ListView).items target next.state =
      (found.items target world.state).tail := by
    rw [ListView.items.eq_1 found, hsplit, itemsOf_cons, List.tail_cons]
    exact hitems
  refine ⟨next, rfl, hrelinks.moves.makes ?_ fun other hother => ⟨?_, ?_⟩, ?_, hholder⟩
  · refine ⟨⟨found.header, behind⟩, hrelinks.lists ▸ List.mem_cons_self, rfl, ?_⟩
    rw [haccount, htail]
    exact hsound.removeFront hlength
  · exact appends_relinks hperm hrelinks fun heq => absurd heq hother
  · rw [haccount]
    exact .removeFront hother
  · rw [haccount]
    exact ⟨hpending, hlength, fun _ hreply => by cases hreply⟩

theorem follows_removeItem (hworld : Removing (account target list world.moves) item) :
    (fifo target list consumer).Follows consumer (.on list (.removeItem item))
      (fun _ world => Consumed (account target list world.moves) .none)
      (tbxListRemoveItem target list item) world := by
  have hconsumed : Lasting target (fifoUsage target list consumer) consumer
      fun world => Consumed (account target list world.moves) .none :=
    lasting_account (Consumed · .none) Consumed.onward
  rw [tbxListRemoveItem_eq hlist hitem]
  apply (follows_find hlist hitem hworld).bind
  rintro node world ⟨hne, hworld⟩
  rw [if_pos hne]
  apply (follows_unlink hworld).bind
  rintro _ world hworld
  apply follows_private fifo_private (tbxMemPoolRelease_atomic hne)
    (stable_and hconsumed.stable stable_holder) hworld fun _ => hconsumed.stable
  rintro world ⟨hconsumed, hholder⟩ hshared hinv
  apply (hshared.release consumer (.on list (.removeItem item)) hholder).mono
  rintro _ after ⟨next, hadvances, -⟩
  refine ⟨next, hadvances, fun _ => ?_⟩
  rw [account_quiet hinv hadvances.moves hadvances.keeps]
  exact hconsumed

end Removing

/-! ## Calls and returns -/

theorem Appends.refl (list : Nat) (consumer context : Context) (world : World Context) :
    Appends list consumer context world world :=
  fun view hview hheader => ⟨view, hview, hheader, fun _ => List.prefix_rfl⟩

/-- A call or a return leaves the list as it is and is added to the account. -/
theorem makes_recorded {move : ListMove} (hinv : (fifo target list consumer).inv world)
    (hrecorded : Recorded move world.state world.state)
    (htallied : account target list (world.recorded context move).moves = tally)
    (hsound : ∀ items, (account target list world.moves).Sound items → tally.Sound items)
    (honward : ∀ other, other ≠ context →
      (account target list world.moves).Onward consumer other tally) :
    (fifo target list consumer).Makes context move world (world.recorded context move) := by
  obtain ⟨hshared, view, hview, hheader, hitems⟩ := hinv
  apply (hshared.moves_record hrecorded).makes
  · exact ⟨view, hview, hheader, htallied ▸ hsound _ hitems⟩
  · exact fun other hother => ⟨.refl _ _ _ _, htallied ▸ honward other hother⟩

/-- The consumer has a result, and perhaps an item. -/
theorem Consumed.waits (hconsumed : Consumed tally reply) : Waits tally := by
  obtain ⟨hpending, hlength, -⟩ := hconsumed
  refine ⟨fun _ => hlength, fun item hitem => ?_⟩
  rw [hpending] at hitem
  cases hitem

theorem Consumed.waits_obtained (hconsumed : Consumed tally (.pointer item)) (hne : item ≠ null) :
    Waits (tally.obtainFront item) := by
  obtain ⟨hpending, hlength, hnext⟩ := hconsumed
  refine ⟨fun hnone => (by cases hnone), fun other hother => ?_⟩
  cases hother
  refine ⟨hne, ?_, hnext item rfl hne⟩
  rw [QueueTally.obtainFront, List.length_append, hlength]
  rfl

/-- Every call that is allowed keeps to the discipline. -/
theorem fifo_call [DecidableEq Context] (hinv : (fifo target list consumer).inv world)
    (hidle : (fifo target list consumer).idle context world)
    (hallowed : FifoCall list consumer (account target list world.moves) context request) :
    ∃ next, next.state = world.state ∧
      (fifo target list consumer).Makes context (.called request) world next ∧
      (fifo target list consumer).Follows context request
        ((fifo target list consumer).done context request) (request.perform target) next := by
  have hlist : list ≠ null := by
    obtain ⟨hshared, view, hview, rfl, -⟩ := hinv
    have hblock := mem_blocksOf hview List.mem_cons_self
    exact (hshared.memory.holds _ hblock).ne_null hshared.memory.pools.heap
  have hsound : ∃ items, (account target list world.moves).Sound items := by
    obtain ⟨-, view, -, -, hitems⟩ := hinv
    exact ⟨_, hitems⟩
  have hstable : ∀ reply, (fifo target list consumer).Stable context
      ((fifo target list consumer).done context request reply) := fun _ => fifo_done_stable
  refine ⟨world.recorded context (.called request), rfl, ?_⟩
  match request with
  | .on handle (.insertItemBack item) =>
      obtain ⟨rfl, hcontext, hitem, hfresh⟩ := hallowed
      obtain ⟨items, hitems⟩ := hsound
      have hunsettled : Unsettled (account target handle (world.recorded context
          (.called (.on handle (.insertItemBack item)))).moves) context item :=
        ⟨List.mem_cons_self, fun hmem => hfresh (hitems.rejected_offered item hmem),
          fun hmem => hfresh (hitems.linked_offered item hmem)⟩
      refine ⟨makes_recorded hinv rfl rfl (fun _ hitems => hitems.offer context hfresh)
        fun _ _ => .offer context, ?_⟩
      apply (follows_insertItemBack hcontext hlist hitem hunsettled not_created_called).map hstable
      exact fun _ _ hdone => hdone
  | .on handle .getFirstItem =>
      obtain ⟨rfl, rfl, hpending⟩ := hallowed
      have hconsumed : Consumed (account target handle (world.recorded context
          (.called (.on handle .getFirstItem))).moves) .none :=
        ⟨rfl, (hidle rfl).1 hpending, fun _ hreply => by cases hreply⟩
      refine ⟨makes_recorded hinv rfl rfl (fun _ hitems => hitems.ask) fun _ hother => .ask hother, ?_⟩
      apply (follows_getFirstItem hlist hconsumed).map hstable
      exact fun _ _ hdone => ⟨rfl, hdone⟩
  | .on handle (.removeItem item) =>
      obtain ⟨rfl, rfl, hpending⟩ := hallowed
      obtain ⟨hitem, hlength, hnext⟩ := (hidle rfl).2 item hpending
      have hremoving : Removing (account target handle (world.recorded context
          (.called (.on handle (.removeItem item)))).moves) item :=
        ⟨rfl, hlength, hnext⟩
      refine ⟨makes_recorded hinv rfl rfl (fun _ hitems => hitems.ask) fun _ hother => .ask hother, ?_⟩
      apply (follows_removeItem hlist hitem hremoving).map hstable
      exact fun _ _ hdone => ⟨rfl, hdone⟩

/-- Every result is one that the account can take. -/
theorem fifo_finish (hinv : (fifo target list consumer).inv world)
    (hdone : (fifo target list consumer).done context request reply world) :
    ∃ next, next.state = world.state ∧
      (fifo target list consumer).Makes context (.returned request reply) world next ∧
      (fifo target list consumer).idle context next := by
  have hsound : ∃ items, (account target list world.moves).Sound items := by
    obtain ⟨-, view, -, -, hitems⟩ := hinv
    exact ⟨_, hitems⟩
  obtain ⟨items, hitems⟩ := hsound
  refine ⟨world.recorded context (.returned request reply), rfl, ?_⟩
  change match request.appends with | some item => _ | none => _ at hdone
  cases happends : request.appends with
  | some item =>
      rw [happends] at hdone
      obtain ⟨hcontext, status, rfl, hoffered, -, hlinked, hnot⟩ := hdone
      have hidle : (fifo target list consumer).idle context
          (world.recorded context (.returned request (.status status))) :=
        fun heq => absurd heq hcontext
      cases status with
      | ok =>
          have htallied : account target list (world.recorded context
              (.returned request (.status .ok))).moves =
                (account target list world.moves).accept item := by
            simp only [World.recorded_moves, account, tallied, happends]
          refine ⟨makes_recorded hinv rfl htallied ?_ ?_, hidle⟩
          · exact fun _ hitems => hitems.accept (hlinked rfl)
          · exact fun _ _ => .accept
      | error =>
          have htallied : account target list (world.recorded context
              (.returned request (.status .error))).moves =
                (account target list world.moves).reject item := by
            simp only [World.recorded_moves, account, tallied, happends]
          refine ⟨makes_recorded hinv rfl htallied ?_ ?_, hidle⟩
          · exact fun _ hitems => hitems.reject hoffered (hnot rfl)
          · exact fun _ hother => .reject hitems hoffered hother
  | none =>
      rw [happends] at hdone
      obtain ⟨rfl, hconsumed⟩ := hdone
      by_cases hitem : ∃ item, reply = .pointer item ∧ item ≠ null
      · obtain ⟨item, rfl, hne⟩ := hitem
        have htallied : account target list (world.recorded context
            (.returned request (.pointer item))).moves =
              (account target list world.moves).obtainFront item := by
          simp only [World.recorded_moves, account, tallied, happends, if_neg hne]
        obtain ⟨-, hlength, hnext⟩ := id hconsumed
        refine ⟨makes_recorded hinv rfl htallied ?_ ?_, fun _ => ?_⟩
        · exact fun _ hitems => hitems.obtainFront hlength (hnext item rfl hne)
        · exact fun _ hother => .obtainFront hother
        · rw [htallied]
          exact hconsumed.waits_obtained hne
      · have htallied : account target list (world.recorded context
            (.returned request reply)).moves = account target list world.moves := by
          simp only [World.recorded_moves, account, tallied, happends]
          split
          · contradiction
          · contradiction
          · next item heq =>
              exact if_pos (not_not.mp fun hne => hitem ⟨item, rfl, hne⟩)
          · rfl
        refine ⟨makes_recorded hinv rfl htallied ?_ ?_, fun _ => ?_⟩
        · exact fun _ hitems => hitems
        · exact fun _ _ => .refl _ _ _
        · rw [htallied]
          exact hconsumed.waits

/-! ## Every interleaving -/

variable [DecidableEq Context]

theorem fifo_sound : (fifo target list consumer).Sound (fifoClients target list consumer) where
  suffix := fun _ _ _ => trivial
  idle := fun _ _ _ hwaits _ _ _ hrely heq => by
    subst heq
    exact (hwaits rfl).onward hrely.2.2
  call := fun _ _ _ hinv hidle hallowed _ => fifo_call hinv hidle hallowed
  finish := fun _ _ _ _ hinv hdone _ => fifo_finish hinv hdone

/-- From an empty list on, producers and the consumer keep to their discipline. -/
theorem fifo_agrees {history : List ListExchange} {state : State}
    (hrun : (listInterface target).Run history state)
    (hsound : ∀ exchange ∈ history, exchange.request.BlockSize target.Sound)
    (hlist : list ∈ liveLists history)
    (hempty : state.mem (target.field list TbxList.nodeCount) = 0)
    {config : ClientConfig Context State Fault ListCall ListReply}
    (hreachable : (fifoClients target list consumer).Reachable state config) :
    ∃ world, (fifo target list consumer).Agrees config world := by
  obtain ⟨owner, views, lists, hat⟩ := RunAt.of_run hrun hsound
  let world : World Context := ⟨state, [], owner, views, lists, ownBlocks history, fun _ => none⟩
  have hshared : world.Shared target := ⟨hat.memory, fun _ _ hholder => by cases hholder⟩
  obtain ⟨view, hview, rfl⟩ := List.mem_map.mp (hat.live.mem_iff.mpr hlist)
  have hitems : view.items target state = [] := by
    have hcount := nodeCount_eq hshared hview
    rw [hempty] at hcount
    rw [ListView.items, List.length_eq_zero_iff.mp hcount.symm]
    rfl
  have hinv : (fifo target view.header consumer).inv world :=
    ⟨hshared, view, hview, rfl, hitems ▸ .empty⟩
  have hidle : ∀ context, (fifo target view.header consumer).idle context world :=
    fun _ _ => ⟨fun _ => rfl, fun _ hitem => by cases hitem⟩
  exact fifo_sound.reachable hinv rfl hidle hreachable trivial

/-- Two producers and a consumer. The second item is linked between the search
for the first one and its removal. -/
def fifoSchedule : List (Fin 3 × Clients.Choice ListCall) :=
  (1, .call (.on 4224 (.insertItemBack 5))) :: List.replicate 8 (1, .step) ++
    [(0, .call (.on 4224 .getFirstItem)), (0, .step), (0, .finish),
      (2, .call (.on 4224 (.insertItemBack 7))), (0, .call (.on 4224 (.removeItem 5))),
      (0, .step)] ++ List.replicate 10 (2, .step) ++ [(0, .step), (0, .step), (2, .finish),
      (0, .finish), (1, .finish), (0, .call (.on 4224 .getFirstItem)), (0, .step), (0, .finish)]

end MicroTbx

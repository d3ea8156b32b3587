import MicroTbx.Foundation.ExchangeSort
import MicroTbx.List.Refinement

/-! # Iterating over a list

An application visits the items of a list by asking for the first one and then
again and again for the one behind the last answer. Each answer is found by a
search from the start of the list, so the visit ends when no item occurs twice.
-/

namespace MicroTbx

open Program

/-- The loop that visits items: from each to its neighbour, until there is none.
The result lists the items it has visited. -/
def visitLoop (neighbour : Nat → Code Nat) : Nat → Nat → Code (List Nat)
  | 0, _ => .fault .endlessLoop
  | fuel + 1, item =>
      if item ≠ null then do
        let other ← neighbour item
        let rest ← visitLoop neighbour fuel other
        pure (item :: rest)
      else pure []

variable (target : Target)

def visitForward (list fuel : Nat) : Code (List Nat) := do
  let item ← tbxListGetFirstItem target list
  visitLoop (tbxListGetNextItem target list) fuel item

def visitBackward (list fuel : Nat) : Code (List Nat) := do
  let item ← tbxListGetLastItem target list
  visitLoop (tbxListGetPreviousItem target list) fuel item

/-- What iterations over a list find, from any nesting depth. -/
structure Iterates (state : State) (list : Nat) (items : List Nat) : Prop where
  size : (tbxListGetSize target list).Returns state fun result _ => result = items.length
  /-- Any number of rounds is enough that allows for one more than the items. -/
  forward : ∀ fuel, items.length < fuel →
    (visitForward target list fuel).Returns state fun visited _ => visited = items
  backward : ∀ fuel, items.length < fuel →
    (visitBackward target list fuel).Returns state fun visited _ => visited = items.reverse
  adjacent : ∀ item ∈ items, ∀ other ∈ items,
    ((tbxListGetNextItem target list item).Returns state fun result _ => result = other) ↔
      (tbxListGetPreviousItem target list other).Returns state fun result _ => result = item

variable {target} {owner : Ownership} {views : List PoolView} {view : ListView}
  {lists rest : List ListView} {app : List Nat} {state middle : State} {cells : Cells}
  {list fuel item : Nat} {nodes front back items : List Nat} {neighbour : Nat → Code Nat}
  {history : List ListExchange}

/-! ## The loop -/

/-- A visit that goes from each item to the one behind it sees them all. -/
theorem visitLoop_spec (hedited : Edited target list nodes state middle cells)
    (hneighbour : ∀ front item back middle, items = front ++ item :: back →
      Edited target list nodes state middle cells →
      (neighbour item).Returns middle fun result after =>
        Edited target list nodes state after cells ∧ result = back.headD null)
    (hne : ∀ item ∈ items, item ≠ null) (hitems : items = front ++ back)
    (hfuel : back.length < fuel) :
    (visitLoop neighbour fuel (back.headD null)).Returns middle fun visited _ =>
      visited = back := by
  induction back generalizing front fuel middle with
  | nil =>
      obtain ⟨fuel, rfl⟩ := Nat.exists_eq_succ_of_ne_zero (Nat.ne_of_gt hfuel)
      rw [List.headD_nil, visitLoop, if_neg (not_not.mpr rfl)]
      exact (returns_pure _).mpr rfl
  | cons item later ih =>
      obtain ⟨fuel, rfl⟩ := Nat.exists_eq_succ_of_ne_zero (Nat.ne_of_gt (Nat.zero_lt_of_lt hfuel))
      have hmem : item ∈ items := hitems ▸ List.mem_append_right _ List.mem_cons_self
      rw [List.headD_cons, visitLoop, if_pos (hne item hmem)]
      apply (hneighbour front item later middle hitems hedited).bind
      rintro _ between ⟨hbetween, rfl⟩
      apply (ih hbetween (hitems.trans (List.append_cons ..)) (Nat.lt_of_succ_lt_succ hfuel)).bind
      rintro _ after rfl
      exact (returns_pure _).mpr rfl

/-! ## Both directions -/

/-- A program that returns one value returns no other. -/
theorem returns_eq_iff {program : Code Nat} {result value : Nat}
    (hreturns : program.Returns state fun found _ => found = result) :
    (program.Returns state fun found _ => found = value) ↔ result = value := by
  constructor
  · intro hvalue
    obtain ⟨found, after, hrun, hfound⟩ := hreturns.run 0
    exact hfound.symm.trans (hvalue.of_run hrun).2
  · rintro rfl
    exact hreturns

theorem ListCells.iterates (hcells : ListCells target (cellsOf target state.mem) list nodes)
    (hne : ∀ item ∈ itemsOf (cellsOf target state.mem) nodes, item ≠ null)
    (hnodup : (itemsOf (cellsOf target state.mem) nodes).Nodup)
    (hsize : (tbxListGetSize target list).Returns state fun result _ =>
      result = (itemsOf (cellsOf target state.mem) nodes).length) :
    Iterates target state list (itemsOf (cellsOf target state.mem) nodes) := by
  generalize hitems : itemsOf (cellsOf target state.mem) nodes = items at hne hnodup hsize ⊢
  have hstart : Edited target list nodes state state (cellsOf target state.mem) := .refl ..
  refine ⟨hsize, fun fuel hfuel => ?_, fun fuel hfuel => ?_, fun item hitem other hother => ?_⟩
  · apply (tbxListGetFirstItem_spec hstart hcells).bind
    rintro _ middle ⟨hmiddle, rfl⟩
    rw [hitems, ← List.headD_eq_head?_getD]
    apply visitLoop_spec hmiddle _ hne (List.nil_append items).symm hfuel
    rintro front item back middle rfl hmiddle
    have hitem := hne item (List.mem_append_right _ List.mem_cons_self)
    apply (tbxListGetNextItem_spec hmiddle hcells hitem).mono
    rintro _ after ⟨hafter, rfl⟩
    rw [hitems, Sequence.next_split (Sequence.not_mem_front hnodup), List.headD_eq_head?_getD]
    exact ⟨hafter, rfl⟩
  · apply (tbxListGetLastItem_spec hstart hcells).bind
    rintro _ middle ⟨hmiddle, rfl⟩
    rw [hitems, ← List.head?_reverse, ← List.headD_eq_head?_getD]
    have hreverse : ∀ item ∈ items.reverse, item ≠ null :=
      fun item hitem => hne item (List.mem_reverse.mp hitem)
    apply visitLoop_spec hmiddle _ hreverse (List.nil_append items.reverse).symm
    · rwa [List.length_reverse]
    · intro front item back middle hsplit hmiddle
      -- In the opposite direction what is behind an item is in front of it.
      have hforward : items = back.reverse ++ item :: front.reverse := by
        rw [← List.reverse_reverse items, hsplit, List.reverse_append, List.reverse_cons,
          List.append_assoc]
        rfl
      subst hforward
      have hitem := hne item (List.mem_append_right _ List.mem_cons_self)
      apply (tbxListGetPreviousItem_spec hmiddle hcells hitem).mono
      rintro _ after ⟨hafter, rfl⟩
      rw [hitems, Sequence.previous_split (Sequence.not_mem_front hnodup), List.getLast?_reverse,
        List.headD_eq_head?_getD]
      exact ⟨hafter, rfl⟩
  · have hnext := (tbxListGetNextItem_spec hstart hcells (hne item hitem)).mono
      fun _ _ hresult => hresult.2
    have hprevious := (tbxListGetPreviousItem_spec hstart hcells (hne other hother)).mono
      fun _ _ hresult => hresult.2
    have hsome : ∀ (answer : Option Nat) value, value ≠ null →
        (answer.getD null = value ↔ answer = some value) := by
      intro answer value hvalue
      cases answer with
      | none => exact iff_of_false (Ne.symm hvalue) (by simp)
      | some found => simp
    rw [returns_eq_iff hnext, returns_eq_iff hprevious, hitems, hsome _ _ (hne other hother),
      hsome _ _ (hne item hitem)]
    exact Sequence.next_iff_previous hnodup

/-! ## Lists of a run -/

/-- No sequence contains `NULL`. -/
def Visitable (sequences : Sequences) : Prop :=
  ∀ list items, sequences list = some items → ∀ item ∈ items, item ≠ null

theorem ListOperation.apply_ne_null {operation : ListOperation} (hvalid : operation.Valid)
    (hne : ∀ item ∈ items, item ≠ null) : ∀ item ∈ (operation.apply items).2, item ≠ null := by
  intro item hitem
  cases operation with
  | clear => cases hitem
  | getSize => exact hne item hitem
  | insertItemFront inserted =>
      rcases List.mem_cons.mp hitem with rfl | hold
      · exact hvalid
      · exact hne item hold
  | insertItemBack inserted =>
      rcases List.mem_append.mp hitem with hold | hnew
      · exact hne item hold
      · rw [List.mem_singleton.mp hnew]
        exact hvalid
  | insertItemBefore inserted itemRef =>
      simp only [ListOperation.apply] at hitem
      split at hitem
      · rcases Sequence.mem_insertBefore hitem with rfl | hold
        · exact hvalid.1
        · exact hne item hold
      · exact hne item hitem
  | insertItemAfter inserted itemRef =>
      simp only [ListOperation.apply] at hitem
      split at hitem
      · rcases Sequence.mem_insertAfter hitem with rfl | hold
        · exact hvalid.1
        · exact hne item hold
      · exact hne item hitem
  | removeItem removed => exact hne item (List.mem_of_mem_erase hitem)
  | getFirstItem => exact hne item hitem
  | getLastItem => exact hne item hitem
  | getPreviousItem itemRef => exact hne item hitem
  | getNextItem itemRef => exact hne item hitem
  | swapItems item1 item2 =>
      rcases Sequence.mem_swap hitem with rfl | rfl | hold
      · exact hvalid.1
      · exact hvalid.2
      · exact hne item hold
  | sortItems compareItemsFcn =>
      cases compareItemsFcn with
      | none => exact hne item hitem
      | some compareItemsFcn => exact hne item ((Sequence.exchangeSort_perm items).mem_iff.mp hitem)

/-- What one valid call does keeps the sequences without `NULL`. -/
theorem Visitable.step {short : Nat → Prop} {sequences next : Sequences} {call : ListCall}
    {reply : ListReply} (hvisitable : Visitable sequences) (hvalid : call.Valid target history state)
    (hstep : SpecStep short sequences call reply next) : Visitable next := by
  have hupdate : ∀ handle (value : Option (List Nat)),
      (∀ items, value = some items → ∀ item ∈ items, item ≠ null) →
      Visitable (Function.update sequences handle value) := by
    intro handle value hvalue other items hother
    by_cases heq : other = handle
    · rw [heq, Function.update_self] at hother
      exact hvalue items hother
    · rw [Function.update_of_ne heq] at hother
      exact hvisitable other items hother
  cases hstep with
  | create ne_null fresh =>
      apply hupdate
      rintro _ ⟨⟩ item hitem
      cases hitem
  | createFailed memory => exact hvisitable
  | delete live => exact hupdate _ _ fun items hnone => by cases hnone
  | on live =>
      apply hupdate
      rintro _ ⟨⟩
      exact ListOperation.apply_ne_null hvalid.2 (hvisitable _ _ live)
  | onFailed live allocates memory => exact hvisitable
  | pool => exact hvisitable

theorem SpecRun.visitable {sequences : Sequences} (hspec : SpecRun target history sequences)
    (hrun : (listInterface target).Run history state) : Visitable sequences := by
  induction hspec generalizing state with
  | start => exact fun list items hitems => by cases hitems
  | step prior step ih =>
      cases hrun with
      | step earlier isAllowed returned => exact (ih earlier).step isAllowed.1 step

/-- In every run, iterating over a live list without repeated items visits each
of them once, in the order of the list or the opposite one, and ends. -/
theorem iteration_visits (hrun : (listInterface target).Run history state)
    (hsound : ∀ exchange ∈ history, exchange.request.BlockSize target.Sound)
    (hlist : list ∈ liveLists history) :
    ∃ nodes, ListShape (cellsOf target state.mem) list nodes ∧
      ((itemsOf (cellsOf target state.mem) nodes).Nodup →
        Iterates target state list (itemsOf (cellsOf target state.mem) nodes)) := by
  obtain ⟨owner, views, lists, hat⟩ := RunAt.of_run hrun hsound
  obtain ⟨view, rest, rfl, hfront⟩ := hat.front hlist
  have hview : view ∈ view :: rest := List.mem_cons_self
  refine ⟨view.nodes, hfront.memory.shape view hview, fun hnodup => ?_⟩
  have hne := hfront.spec.visitable hrun view.header _ sequencesOf_front
  apply (hfront.memory.listCells hview).iterates hne hnodup
  exact hfront.memory.getSize.mono fun _ _ hresult => hresult.1

/-- Four items after insertions, a removal, an exchange and a sort. -/
def iteratedCalls : List ListCall :=
  [.on 4224 (.insertItemBefore 2 9), .on 4224 (.swapItems 3 7),
    .on 4224 (.sortItems (some ascending)),
    .on 4224 (.removeItem 5), .on 4224 (.insertItemAfter 9 5), .on 4224 (.insertItemBack 3),
    .on 4224 (.insertItemFront 7), .on 4224 (.insertItemFront 5), .create]

theorem iteration_visits_four : ∃ history state,
    (listInterface linux64).Run history state ∧ history.map Exchange.request = iteratedCalls ∧
      Iterates linux64 state 4224 [7, 3, 2, 9] := by
  -- Where the four nodes lie, and what they hold.
  have hexecutes : ((listInterface linux64).execute iteratedCalls).map (fun outcome =>
      let cells := cellsOf linux64 outcome.2.mem
      decide (4224 ∈ liveLists outcome.1 ∧ cells 4224 TbxList.firstNodePtr = 4272 ∧
        [4272, 4368, 4176, 4320].map (cells · ListNode.nextNodePtr) = [4368, 4176, 4320, null] ∧
        itemsOf cells [4272, 4368, 4176, 4320] = [7, 3, 2, 9])) = some true := by
    decide +kernel
  obtain ⟨history, state, hrun, hrequests, hchecks⟩ := Interface.execute_map hexecutes
  obtain ⟨hlive, hfirst, hnext, hitems⟩ := of_decide_eq_true hchecks
  have hsound : ∀ request ∈ history.map Exchange.request, request.BlockSize linux64.Sound := by
    rw [hrequests]
    decide
  obtain ⟨nodes, hshape, hiterates⟩ :=
    iteration_visits hrun (List.forall_mem_map.mp hsound) hlive
  have hlinked : Chain.Linked (cellsOf linux64 state.mem · ListNode.nextNodePtr) null
      (cellsOf linux64 state.mem 4224 TbxList.firstNodePtr) [4272, 4368, 4176, 4320] := by
    simp only [List.map_cons, List.map_nil, List.cons.injEq] at hnext
    obtain ⟨hsecond, hthird, hfourth, hlast, -⟩ := hnext
    simp [Chain.linked_cons, Chain.linked_nil, hfirst, hsecond, hthird, hfourth, hlast]
  obtain rfl := hshape.links.forward.unique hlinked
  rw [hitems] at hiterates
  exact ⟨history, state, hrun, hrequests, hiterates (by decide)⟩

end MicroTbx

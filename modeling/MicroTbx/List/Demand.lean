import MicroTbx.List.Peak

/-! # Pools grow at their peak

In a run in which no creation fails, a call that works on demand gives a pool
another block only when all its blocks are handed out. The headers and nodes of
all lists are blocks of one pool, which exists as soon as there is a list.
-/

namespace MicroTbx

open Program

section Exchanges

variable (target : Target)

/-- Whether a search finds the item in the list. -/
def finds (state : State) (list item : Nat) : Bool :=
  match (tbxListFindListNode target list item).run 0 state with
  | .done listNodePtr _ _ => decide (listNodePtr ≠ null)
  | _ => false

/-- Whether an operation gets as far as allocating a node. -/
def ListOperation.asks (state : State) (list : Nat) : ListOperation → Bool
  | .insertItemFront _ | .insertItemBack _ => true
  | .insertItemBefore _ itemRef | .insertItemAfter _ itemRef => finds target state list itemRef
  | _ => false

/-- A call of `TbxMemPoolCreate` failed in the exchange, as its result shows. -/
def CreateFails (exchange : ListExchange) : Prop :=
  match exchange.request with
  | .create => exchange.result = .pointer null
  | .on list operation =>
      operation.asks target exchange.before list = true ∧ exchange.result = .status .error
  | .pool (.create _ _) => exchange.result = .pool (.status .error)
  | .pool (.allocateAuto size) => 0 < size ∧ exchange.result = .pool (.pointer null)
  | _ => False

instance (exchange : ListExchange) : Decidable (CreateFails target exchange) := by
  unfold CreateFails
  split <;> infer_instance

/-- The block size of the pool that a call extends on demand. -/
def ListCall.demand : ListCall → Option Nat
  | .create => some (sizeofList target)
  | .on _ operation =>
      match operation with
      | .insertItemFront _ | .insertItemBack _ | .insertItemBefore _ _ | .insertItemAfter _ _ =>
          some (sizeofListNode target)
      | _ => none
  | .pool (.allocateAuto size) => some size
  | _ => none

/-- The first call of `TbxListCreate`, which makes two blocks. -/
def FirstCreation (exchange : ListExchange) (size : Nat) : Prop :=
  exchange.request = .create ∧ exchange.before.memPoolsCreated = false ∧
    (size = sizeofList target ∨ size = sizeofListNode target) ∧
    (blocksAdded size exchange.after.log).length =
      (blocksAdded size exchange.before.log).length + 2

/-- A pool is given a block only when all its blocks are handed out, by a call
that needs one of this size. -/
def GrowsAtPeak (exchange : ListExchange) : Prop :=
  ∀ size, blocksAdded size exchange.after.log ≠ blocksAdded size exchange.before.log →
    (∃ numBlocks, exchange.request = .pool (.create numBlocks size)) ∨
      FirstCreation target exchange size ∨
      (exchange.request.demand target = some size ∧ AllAllocated target size exchange.before)

end Exchanges

variable {target : Target} {owner : Ownership} {views : List PoolView} {view : ListView}
  {lists rest : List ListView} {app : List Nat} {state after : State}
  {history : List ListExchange} {call : ListCall} {reply : ListReply}

/-! ## Every call -/

theorem ListsAt.finds_iff (hlists : ListsAt target owner views (view :: rest) app state) {item : Nat}
    (hitem : item ≠ null) :
    finds target state view.header item = true ↔ item ∈ view.items target state := by
  obtain ⟨hedited, hcells⟩ := hlists.entry
  obtain ⟨node, found, hrun, -, hfound⟩ := (tbxListFindListNode_spec hedited hcells hitem).run 0
  rw [finds, hrun]
  simp only [decide_eq_true_eq]
  exact hfound.ne_null_iff hcells.apart

/-- An operation asks for a node when it has an item to add. -/
theorem ListsAt.asks_iff (hlists : ListsAt target owner views (view :: rest) app state)
    {operation : ListOperation} (hvalid : operation.Valid) :
    operation.asks target state view.header = true ↔
      operation.Allocates (view.items target state) := by
  cases operation with
  | insertItemFront item => exact iff_of_true rfl trivial
  | insertItemBack item => exact iff_of_true rfl trivial
  | insertItemBefore item itemRef => exact hlists.finds_iff hvalid.2
  | insertItemAfter item itemRef => exact hlists.finds_iff hvalid.2
  | _ => exact iff_of_false Bool.false_ne_true id

theorem demand_of_allocates {operation : ListOperation} {items : List Nat} (list : Nat)
    (hallocates : operation.Allocates items) :
    (ListCall.on list operation).demand target = some (3 * target.word) := by
  cases operation with
  | insertItemFront item => rfl
  | insertItemBack item => rfl
  | insertItemBefore item itemRef => rfl
  | insertItemAfter item itemRef => rfl
  | _ => exact absurd hallocates id

/-- Pool functions other than those that make blocks leave the pools as large
as they are. -/
theorem PoolStep.blocksAdded_eq {larger : Ownership} {others : List PoolView} {call : PoolCall}
    {reply : PoolReply} (hstep : PoolStep target owner views state call reply larger others after)
    (hcreate : ∀ numBlocks blockSize, call ≠ .create numBlocks blockSize)
    (hauto : ∀ size, call ≠ .allocateAuto size) (size : Nat) :
    blocksAdded size after.log = blocksAdded size state.log := by
  cases hstep with
  | createInvalid invalid rejected => exact absurd rfl (hcreate _ _)
  | create someBlocks size creates => exact absurd rfl (hcreate _ _)
  | allocateInvalid => rfl
  | allocateRefused positive refused => rfl
  | allocate positive takes =>
      obtain ⟨rfl, fit, free⟩ := takes
      rfl
  | autoInvalid => exact absurd rfl (hauto _)
  | auto positive allocates => exact absurd rfl (hauto _)
  | release split used out => rfl
  | heapAllocate grown room checks => exact grown.added size
  | write data => rfl

/-- The pools grow at the peak when blocks are made as asked for, one by one. -/
theorem AsksOne.growsAtPeak {size : Nat} {failed : Prop}
    (hasks : AsksOne target size state after failed)
    (hdemand : call.demand target = some size) :
    GrowsAtPeak target ⟨call, reply, state, after⟩ := by
  intro other hne
  by_cases hother : other = size
  · subst hother
    refine .inr (.inr ⟨hdemand, ?_⟩)
    by_contra hspare
    exact hne (hasks.spare hspare).2.2
  · exact absurd (hasks.others other hother) hne

theorem PoolsAt.growsAtPeak (hpools : PoolsAt target owner views state) {call : PoolCall}
    {reply : PoolReply} (hallowed : call.Allowed target state) (hsound : call.BlockSize target.Sound)
    (hreturned : (call.perform target).run 0 state = .done reply 0 after) :
    GrowsAtPeak target ⟨.pool call, .pool reply, state, after⟩ := by
  have honward : Onward state after := by
    have hsteps := (Onward.poolSteps.within_perform target call).run Onward.refl Onward.trans 0 state
    rwa [hreturned] at hsteps
  obtain ⟨-, larger, others, hstep⟩ := (hpools.step hallowed hsound).of_run hreturned
  intro size hne
  cases call with
  | create numBlocks blockSize =>
      refine .inl ⟨numBlocks, ?_⟩
      by_cases hsize : size = blockSize
      · rw [hsize]
      · refine absurd ?_ hne
        cases hstep with
        | createInvalid invalid rejected => rcases rejected with rfl | rfl <;> rfl
        | create someBlocks positive creates =>
            exact MicroTbx.blocksAdded_eq honward.grows (creates.length_blocksAdded hpools hsize)
  | allocateAuto blockSize =>
      rcases Nat.eq_zero_or_pos blockSize with rfl | hpos
      · refine absurd ?_ hne
        cases hstep with
        | autoInvalid => rfl
        | auto positive allocates => exact absurd positive (Nat.lt_irrefl 0)
      · obtain ⟨data, between, middle, hdata, hrest⟩ := done_bind hreturned
        cases hrest
        obtain ⟨-, hrequests⟩ := (hpools.allocateAuto_requests hpos hsound).of_run hdata
        have hasks := hrequests.asksOne honward (.refl state) (.refl after) Iff.rfl
        exact hasks.growsAtPeak rfl size hne
  | _ => exact absurd (hstep.blocksAdded_eq (by simp) (by simp) size) hne

theorem delete_steady {list : Nat}
    (hreturned : ((ListCall.delete list).perform target).run 0 state = .done reply 0 after) :
    Steady state after := by
  have hsteps : ((ListCall.delete list).perform target).Within Steady :=
    Steady.listSteps.within_delete.bind fun _ => trivial
  exact .of_run hsteps hreturned

namespace RunAt

variable (hrun : RunAt target history state owner views lists)
include hrun

/-- What an operation on a live list asks for, told by the sequence of items. -/
theorem operation_asksOne {list : Nat} {operation : ListOperation}
    (hvalid : (ListCall.on list operation).Valid target history state)
    (hreturned : ((ListCall.on list operation).perform target).run 0 state = .done reply 0 after) :
    (operation.asks target state list = true ∧
      AsksOne target (3 * target.word) state after (reply = .status .error)) ∨
    (operation.asks target state list = false ∧ Steady state after) := by
  obtain ⟨view, rest, rfl, hfront⟩ := hrun.front hvalid.1
  have hiff := hfront.memory.asks_iff hvalid.2
  rcases hfront.memory.operation_asksOne hvalid.2 hreturned with ⟨hallocates, hasks⟩ | ⟨hnot, hsteady⟩
  · exact .inl ⟨hiff.mpr hallocates, hasks⟩
  · exact .inr ⟨Bool.eq_false_of_not_eq_true fun hasks => hnot (hiff.mp hasks), hsteady⟩

/-- The list that a creation returns, and what it asked for. -/
theorem create_cases
    (hreturned : (ListCall.create.perform target).run 0 state = .done reply 0 after) :
    ∃ list, reply = .pointer list ∧
      ((state.memPoolsCreated = true ∧
        AsksOne target (3 * target.word) state after (list = null)) ∨
      (state.memPoolsCreated = false ∧ FirstCreates target state list after)) := by
  obtain ⟨list, between, middle, hlist, hrest⟩ := done_bind hreturned
  cases hrest
  refine ⟨list, rfl, ?_⟩
  cases hflag : state.memPoolsCreated with
  | true => exact .inl ⟨rfl, ((hrun.memory.pools.listCreate_again hflag).of_run hlist).2⟩
  | false => exact .inr ⟨rfl, ((hrun.memory.pools.listCreate_first hflag).of_run hlist).2⟩

theorem growsAtPeak (hvalid : call.Valid target history state)
    (hsound : call.BlockSize target.Sound)
    (hreturned : (call.perform target).run 0 state = .done reply 0 after)
    (hsucceeds : ¬ CreateFails target ⟨call, reply, state, after⟩) :
    GrowsAtPeak target ⟨call, reply, state, after⟩ := by
  cases call with
  | create =>
      obtain ⟨list, rfl, ⟨hagain, hasks⟩ | ⟨hfirst, hcreates⟩⟩ := hrun.create_cases hreturned
      · exact hasks.growsAtPeak rfl
      · intro size hne
        have hlist : list ≠ null := fun hnull => hsucceeds (congrArg ListReply.pointer hnull)
        by_cases hsize : size = 3 * target.word
        · subst hsize
          exact .inr (.inl ⟨rfl, hfirst, .inl rfl, hcreates.two hlist⟩)
        · exact absurd (hcreates.others size hsize) hne
  | delete list =>
      intro size hne
      exact absurd ((delete_steady hreturned).blocks size) hne
  | on list operation =>
      rcases hrun.operation_asksOne hvalid hreturned with ⟨hasks, hone⟩ | ⟨-, hsteady⟩
      · obtain ⟨view, rest, rfl, hfront⟩ := hrun.front hvalid.1
        have hallocates := (hfront.memory.asks_iff hvalid.2).mp hasks
        exact hone.growsAtPeak (demand_of_allocates _ hallocates)
      · intro size hne
        exact absurd (hsteady.blocks size) hne
  | pool pool =>
      obtain ⟨poolReply, between, middle, hpool, hrest⟩ := done_bind hreturned
      cases hrest
      exact hrun.memory.pools.growsAtPeak hvalid.1 hsound hpool

/-- Blocks of the lists are handed out, and not to the application. -/
theorem not_own {data : Nat} (hdata : data ∈ blocksOf lists) :
    data ∈ handedOut state.log ∧ data ∉ ownBlocks history := by
  refine ⟨hrun.memory.out.mem_iff.mpr (List.mem_append_left _ hdata), fun hown => ?_⟩
  exact (List.nodup_append.mp hrun.memory.nodup).2.2 data hdata data hown rfl

theorem grows (hvalid : call.Valid target history state) (hsorts : SortsItems target state call)
    (hsound : call.BlockSize target.Sound)
    (hreturned : (call.perform target).run 0 state = .done reply 0 after) :
    state.log <:+ after.log := by
  rcases ((hrun.step hvalid hsorts hsound).of_run hreturned).2.2 with ⟨pool, rfl⟩ | htraced
  · obtain ⟨poolReply, between, middle, hpool, hrest⟩ := done_bind hreturned
    cases hrest
    have hsteps := (Onward.poolSteps.within_perform target pool).run Onward.refl Onward.trans 0 state
    rw [hpool] at hsteps
    exact hsteps.grows
  · exact htraced.grows

end RunAt

/-! ## The pool of the lists -/

variable (target) in
/-- What is handed out and not to the application are blocks of the pool of
the lists, which exists once a list was to be created. -/
structure Pooled (history : List ListExchange) (state : State) : Prop where
  objects : ∀ data ∈ handedOut state.log, data ∉ ownBlocks history →
    data - target.word ∈ blocksAdded (3 * target.word) state.log
  exists_of_created : state.memPoolsCreated = true →
    blocksAdded (3 * target.word) state.log ≠ []

namespace Pooled

theorem initial : Pooled target [] .initial where
  objects := by simp [State.initial]
  exists_of_created := by simp [State.initial]

/-- Blocks that are added stay added. -/
theorem later {size data : Nat} (hgrows : state.log <:+ after.log)
    (hadded : data ∈ blocksAdded size state.log) : data ∈ blocksAdded size after.log :=
  (blocksAdded_suffix size hgrows).subset hadded

theorem ne_nil {size : Nat} (hgrows : state.log <:+ after.log)
    (hne : blocksAdded size state.log ≠ []) : blocksAdded size after.log ≠ [] := by
  obtain ⟨block, hblock⟩ := List.exists_mem_of_ne_nil _ hne
  exact List.ne_nil_of_mem (later hgrows hblock)

/-- A call that asks for a block leaves it in a pool that exists already. -/
theorem asksOne {exchange : ListExchange} {failed : Prop} (hpooled : Pooled target history state)
    (hown : ownBlocks (exchange :: history) = ownBlocks history)
    (hgrows : state.log <:+ after.log) (hne : blocksAdded (3 * target.word) state.log ≠ [])
    (hasks : AsksOne target (3 * target.word) state after failed) :
    Pooled target (exchange :: history) after where
  objects := by
    intro data hdata hnot
    rcases hasks.out data hdata with hearlier | hadded
    · exact later hgrows (hpooled.objects data hearlier (hown ▸ hnot))
    · exact hadded (ne_nil hgrows hne)
  exists_of_created := fun _ => ne_nil hgrows hne

theorem steady {exchange : ListExchange} (hpooled : Pooled target history state)
    (hown : ownBlocks (exchange :: history) = ownBlocks history)
    (hsteady : Steady state after) : Pooled target (exchange :: history) after where
  objects := by
    intro data hdata hnot
    rw [hsteady.blocks]
    exact hpooled.objects data (hsteady.out data hdata) (hown ▸ hnot)
  exists_of_created := by
    intro hflag
    rw [hsteady.flag] at hflag
    rw [hsteady.blocks]
    exact hpooled.exists_of_created hflag

theorem step (hpooled : Pooled target history state)
    (hrun : RunAt target history state owner views lists)
    (hvalid : call.Valid target history state) (hsorts : SortsItems target state call)
    (hsound : call.BlockSize target.Sound)
    (hreturned : (call.perform target).run 0 state = .done reply 0 after)
    (hsucceeds : ¬ CreateFails target ⟨call, reply, state, after⟩) :
    Pooled target (⟨call, reply, state, after⟩ :: history) after := by
  have hgrows := hrun.grows hvalid hsorts hsound hreturned
  cases call with
  | create =>
      obtain ⟨list, rfl, ⟨hagain, hasks⟩ | ⟨hfirst, hcreates⟩⟩ := hrun.create_cases hreturned
      · exact hpooled.asksOne rfl hgrows (hpooled.exists_of_created hagain) hasks
      · have hlist : list ≠ null := fun hnull => hsucceeds (congrArg ListReply.pointer hnull)
        refine ⟨fun data hdata hnot => ?_, fun _ => ?_⟩
        · rcases hcreates.out hlist data hdata with hearlier | hadded
          · exact later hgrows (hpooled.objects data hearlier hnot)
          · exact hadded
        · rw [← List.length_pos_iff, hcreates.two hlist]
          exact Nat.succ_pos _
  | delete list => exact hpooled.steady rfl (delete_steady hreturned)
  | on list operation =>
      rcases hrun.operation_asksOne hvalid hreturned with ⟨-, hasks⟩ | ⟨-, hsteady⟩
      · -- The header of the list is in the pool already.
        obtain ⟨view, hview, rfl⟩ := List.mem_map.mp (hrun.live.mem_iff.mpr hvalid.1)
        obtain ⟨hout, hnot⟩ := hrun.not_own (mem_blocksOf hview List.mem_cons_self)
        have hne := List.ne_nil_of_mem (hpooled.objects _ hout hnot)
        exact hpooled.asksOne rfl hgrows hne hasks
      · exact hpooled.steady rfl hsteady
  | pool pool =>
      obtain ⟨poolReply, between, middle, hpool, hrest⟩ := done_bind hreturned
      cases hrest
      have hflag := (Onward.poolSteps.within_perform target pool).run Onward.refl Onward.trans 0 state
      rw [hpool] at hflag
      obtain ⟨-, larger, others, hstep⟩ := (hrun.memory.pools.step hvalid.1 hsound).of_run hpool
      obtain ⟨hafter, -⟩ := hrun.memory.poolStep hstep hvalid.2
      refine ⟨fun data hdata hnot => ?_, fun hcreated => ?_⟩
      · rcases List.mem_append.mp (hafter.out.mem_iff.mp hdata) with hobject | hown
        · obtain ⟨hout, hother⟩ := hrun.not_own hobject
          exact later hgrows (hpooled.objects data hout hother)
        · exact absurd hown hnot
      · exact ne_nil hgrows (hpooled.exists_of_created (hflag.flag ▸ hcreated))

end Pooled

/-- A run in which no creation fails keeps the lists in their pool. -/
theorem Pooled.of_run (hrun : (listInterface target).Run history state)
    (hsound : ∀ exchange ∈ history, exchange.request.BlockSize target.Sound)
    (hsucceeds : ∀ exchange ∈ history, ¬ CreateFails target exchange) :
    Pooled target history state := by
  induction hrun with
  | start => exact .initial
  | @step history before after call reply prior isAllowed returned ih =>
      obtain ⟨hcall, hearlier⟩ := List.forall_mem_cons.mp hsound
      obtain ⟨hsucceed, hsucceeded⟩ := List.forall_mem_cons.mp hsucceeds
      obtain ⟨owner, views, lists, hat⟩ := RunAt.of_run prior hearlier
      exact (ih hearlier hsucceeded).step hat isAllowed.1 isAllowed.2 hcall returned hsucceed

end MicroTbx

import MicroTbx.List.Runs

/-! # The list module refines sequences

Along every run the lists in memory stand for the sequences that the calls are
specified to make of them, each list is linked in both directions, no block has
two holders, and nothing but argument checks fails.
-/

namespace MicroTbx

open Program

variable (target : Target)

/-- The sequences along a history. -/
inductive SpecRun : List ListExchange → Sequences → Prop
  | start : SpecRun [] fun _ => none
  | step {history : List ListExchange} {exchange : ListExchange} {sequences next : Sequences}
      (prior : SpecRun history sequences)
      (step : SpecStep (Exhausted target · exchange.before) sequences exchange.request
        exchange.result next) : SpecRun (exchange :: history) next

/-- What the module promises of the state a run ends in. -/
structure ListsRefine (history : List ListExchange) (state : State) (sequences : Sequences)
    (lists : List ListView) : Prop where
  spec : SpecRun target history sequences
  live : (lists.map ListView.header).Perm (liveLists history)
  shape : ∀ view ∈ lists, ListShape (cellsOf target state.mem) view.header view.nodes
  items : ∀ view ∈ lists, sequences view.header =
    some (itemsOf (cellsOf target state.mem) view.nodes)
  distinct : (blocksOf lists).Nodup
  allocated : ∀ data ∈ blocksOf lists, data ∈ handedOut state.log
  /-- No sanity check is among those that failed. -/
  checks : ∀ failed ∈ asserted state.log, failed ∈ argumentChecks
  answers : ∀ call, (listInterface target).allowed history state call →
    call.BlockSize target.Sound →
    ∃ reply after, (call.perform target).run 0 state = .done reply 0 after

/-- What every run keeps, told with the owners of the heap. -/
structure RunAt (history : List ListExchange) (state : State) (owner : Ownership)
    (views : List PoolView) (lists : List ListView) : Prop where
  memory : ListsAt target owner views lists (ownBlocks history) state
  live : (lists.map ListView.header).Perm (liveLists history)
  spec : SpecRun target history (sequencesOf (cellsOf target state.mem) lists)
  checks : ∀ failed ∈ asserted state.log, failed ∈ argumentChecks

/-- The list that a call is for. -/
def ListCall.list? : ListCall → Option Nat
  | .delete list | .on list _ => some list
  | .create | .pool _ => none

/-- The nodes a call may follow: those in the list it is for, and one that it
allocates itself. -/
def MayFollow (state : State) (call : ListCall) (node : Nat) : Prop :=
  (∃ list nodes, call.list? = some list ∧ ListShape (cellsOf target state.mem) list nodes ∧
    node ∈ nodes) ∨ node ∉ handedOut state.log

variable {target} {owner : Ownership} {views : List PoolView} {view : ListView}
  {lists rest : List ListView} {state after : State} {history : List ListExchange}
  {call : ListCall} {list : Nat}

theorem HeapChecked.checks (hchecked : HeapChecked state after)
    (hchecks : ∀ failed ∈ asserted state.log, failed ∈ argumentChecks) :
    ∀ failed ∈ asserted after.log, failed ∈ argumentChecks := by
  intro failed hfailed
  rcases hchecked failed hfailed with hearlier | rfl
  · exact hchecks failed hearlier
  · decide

namespace RunAt

/-- A live list can be brought to the front. -/
theorem front (hrun : RunAt target history state owner views lists)
    (hlist : list ∈ liveLists history) :
    ∃ view rest, view.header = list ∧ RunAt target history state owner views (view :: rest) := by
  obtain ⟨view, hview, rfl⟩ := List.mem_map.mp (hrun.live.mem_iff.mpr hlist)
  obtain ⟨front, back, rfl⟩ := List.append_of_mem hview
  have hperm : (front ++ view :: back).Perm (view :: (front ++ back)) := List.perm_middle
  refine ⟨view, front ++ back, rfl, hrun.memory.perm hperm, ?_, ?_, hrun.checks⟩
  · exact (hperm.map _).symm.trans hrun.live
  · rw [← sequencesOf_perm hperm hrun.memory.headers_nodup]
    exact hrun.spec

/-- A call that leaves a list with other items has made this step of the run. -/
theorem leaves (hrun : RunAt target history state owner views (view :: rest))
    {operation : ListOperation} {reply : ListReply} {items : List Nat} {next : Sequences}
    (hleaves : Leaves target view rest (ownBlocks history) state items after)
    (hnext : next = Function.update (sequencesOf (cellsOf target state.mem) (view :: rest))
      view.header (some items))
    (hstep : SpecStep (Exhausted target · state) (sequencesOf (cellsOf target state.mem)
      (view :: rest)) (.on view.header operation) reply next) :
    ∃ owner views lists, RunAt target
      (⟨.on view.header operation, reply, state, after⟩ :: history) after owner views lists := by
  obtain ⟨hbehaves, owner', views', nodes, hafter, hitems⟩ := hleaves
  refine ⟨owner', views', _, hafter, hrun.live, ?_, hbehaves.checked.checks hrun.checks⟩
  rw [sequencesOf, hitems, hbehaves.same.sequences]
  refine .step hrun.spec ?_
  rwa [hnext, sequencesOf, Function.update_idem] at hstep

theorem step (hrun : RunAt target history state owner views lists)
    (hvalid : call.Valid target history state) (hsorts : SortsItems target state call)
    (hsound : call.BlockSize target.Sound) :
    (call.perform target).Returns state fun reply after =>
      (∃ owner views lists, RunAt target (⟨call, reply, state, after⟩ :: history) after owner views
        lists) ∧ ((∃ pool, call = .pool pool) ∨ Traced (MayFollow target state call) state after) := by
  cases call with
  | create =>
      refine hrun.memory.create.bind fun list after hcreates => (returns_pure _).mpr ?_
      cases hcreates with
      | created ne_null grown behaves =>
          obtain ⟨owner', views', hafter⟩ := grown
          refine ⟨⟨owner', views', _, hafter, ?_, ?_, behaves.checked.checks hrun.checks⟩,
            .inr (behaves.traced.mono fun _ hnone => hnone.elim)⟩
          · rw [liveLists, if_pos ne_null]
            exact hrun.live.cons list
          · have hfresh : sequencesOf (cellsOf target state.mem) lists list = none :=
              sequencesOf_eq_none (List.nodup_cons.mp hafter.headers_nodup).1
            rw [sequencesOf, behaves.same.sequences]
            exact .step hrun.spec (.create ne_null hfresh)
      | failed exhausted kept behaves =>
          obtain ⟨owner', views', hafter⟩ := kept
          refine ⟨⟨owner', views', _, hafter, ?_, ?_, behaves.checked.checks hrun.checks⟩,
            .inr (behaves.traced.mono fun _ hnone => hnone.elim)⟩
          · rw [liveLists, if_neg (by simp)]
            exact hrun.live
          · rw [behaves.same.sequences]
            exact .step hrun.spec (.createFailed exhausted)
  | delete list =>
      obtain ⟨view, rest, rfl, hfront⟩ := hrun.front hvalid
      refine hfront.memory.delete.bind fun _ after hdeletes => (returns_pure _).mpr ?_
      obtain ⟨⟨owner', views', hafter⟩, hbehaves⟩ := hdeletes
      have hnot := (List.nodup_cons.mp hfront.memory.headers_nodup).1
      refine ⟨⟨owner', views', rest, hafter, ?_, ?_, hbehaves.checked.checks hrun.checks⟩,
        .inr (hbehaves.traced.mono fun node hown => hown.imp_left fun hnode => ?_)⟩
      · have herase := hfront.live.erase view.header
        rwa [List.map_cons, List.erase_cons_head] at herase
      · have hstep : SpecStep (Exhausted target · state) (sequencesOf (cellsOf target state.mem)
            (view :: rest)) (.delete view.header) .none _ := .delete sequencesOf_front
        rw [sequencesOf, Function.update_idem, ← sequencesOf_eq_none hnot,
          Function.update_eq_self] at hstep
        rw [hbehaves.same.sequences]
        exact .step hfront.spec hstep
      · exact ⟨view.header, view.nodes, rfl, hfront.memory.shape view List.mem_cons_self, hnode⟩
  | on list operation =>
      obtain ⟨view, rest, rfl, hfront⟩ := hrun.front hvalid.1
      have hshape := hfront.memory.shape view List.mem_cons_self
      have hsort : operation.IsSort → view.nodes ≠ [] := by
        intro hsort hnodes
        have hcount := hshape.count
        rw [hnodes] at hcount
        exact hsorts hsort hcount
      have hmay : ∀ node, OwnNode state view.nodes node →
          MayFollow target state (.on view.header operation) node :=
        fun node hown => hown.imp_left fun hnode => ⟨view.header, view.nodes, rfl, hshape, hnode⟩
      refine (hfront.memory.operation hvalid.2 hsort).mono fun reply after hoperates => ?_
      cases hoperates with
      | done applied leaves =>
          refine ⟨hfront.leaves leaves rfl ?_, .inr (leaves.traced.mono hmay)⟩
          have hstep := @SpecStep.on (Exhausted target · state) _ view.header _ operation
            (@sequencesOf_front view rest (cellsOf target state.mem))
          rwa [applied] at hstep
      | failed allocates exhausted leaves =>
          refine ⟨hfront.leaves leaves ?_ (.onFailed sequencesOf_front allocates exhausted),
            .inr (leaves.traced.mono hmay)⟩
          rw [← sequencesOf_front, Function.update_eq_self]
  | pool pool =>
      refine (hrun.memory.pools.step hvalid.1 hsound).bind fun reply after hdone =>
        (returns_pure _).mpr ?_
      obtain ⟨larger, others, hstep⟩ := hdone
      obtain ⟨hafter, hsame⟩ := hrun.memory.poolStep hstep hvalid.2
      refine ⟨⟨larger, others, lists, hafter, hrun.live, ?_, fun failed hfailed => ?_⟩,
        .inl ⟨pool, rfl⟩⟩
      · rw [hsame.sequences]
        exact .step hrun.spec .pool
      · exact (hstep.checks hrun.memory.pools failed hfailed).elim (hrun.checks failed) id

/-- Program start: no lists. -/
theorem initial : RunAt target [] .initial (fun _ => none) [] [] where
  memory := ⟨.initial, by simp, by simp, .refl _⟩
  live := .refl _
  spec := .start
  checks := by simp [State.initial]

/-- A run with sound block sizes keeps the lists. -/
theorem of_run (hrun : (listInterface target).Run history state)
    (hsound : ∀ exchange ∈ history, exchange.request.BlockSize target.Sound) :
    ∃ owner views lists, RunAt target history state owner views lists := by
  induction hrun with
  | start => exact ⟨_, _, _, initial⟩
  | @step history before after call reply prior isAllowed returned ih =>
      obtain ⟨hcall, hearlier⟩ := List.forall_mem_cons.mp hsound
      obtain ⟨owner, views, lists, hbefore⟩ := ih hearlier
      exact ((hbefore.step isAllowed.1 isAllowed.2 hcall).of_run returned).2.1

end RunAt

/-- The callback of an application whose items are numbers, to sort them upwards. -/
def ascending : CompareItems := fun _ left right => if right < left then tbxTrue else 0

/-- Items are inserted, sorted and read, around a block of the application. -/
def refinedCalls : List ListCall :=
  [.on 4224 .getFirstItem, .on 4224 (.sortItems (some ascending)),
    .pool (.release 4272), .on 4224 (.insertItemBefore 3 2), .pool (.allocateAuto 24),
    .on 4224 (.insertItemFront 2), .create]

/-- A block whose size wraps, a list, and the release of the block. -/
def overlappingCalls : List ListCall :=
  [.pool (.release 4176), .create, .pool (.allocateAuto (2 ^ 64 - 9))]

end MicroTbx

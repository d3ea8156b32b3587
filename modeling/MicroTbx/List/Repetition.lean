import MicroTbx.List.Tracking

/-! # Memory use follows the peak

A block is made only when all blocks of its pool are handed out. A sequence of
calls that deletes all the lists it creates gives back what it took, and finds
it when it is executed again: the second time it takes nothing from the heap.
-/

namespace MicroTbx

open Program

section Executions

variable (target : Target)

/-- A run whose block sizes are sound and in which no creation of a pool
fails. -/
structure Succeeds (history : List ListExchange) (state : State) : Prop where
  run : (listInterface target).Run history state
  sound : ∀ exchange ∈ history, exchange.request.BlockSize target.Sound
  succeeds : ∀ exchange ∈ history, ¬ CreateFails target exchange

/-- Nothing is taken from the heap or added to the pool of the lists. -/
structure TakesNothing (state after : State) : Prop where
  heap : after.tbxHeapAllocated = state.tbxHeapAllocated
  blocks : blocksAdded (3 * target.word) after.log = blocksAdded (3 * target.word) state.log
  flag : after.memPoolsCreated = state.memPoolsCreated

/-- A call that needs a block for a list. -/
def ListCall.Asks (state : State) : ListCall → Prop
  | .create => True
  | .on list operation => operation.asks target state list = true
  | _ => False

end Executions

variable {target : Target} {owner : Ownership} {views : List PoolView} {lists : List ListView}
  {start middle state before after : State} {base first second later history : List ListExchange}
  {exchange : ListExchange} {call : ListCall} {reply : ListReply} {scriptCall : ScriptCall}
  {script : List ScriptCall} {sequences : Sequences} {items : Nat → List Nat}

theorem OnOwnLists.tail (hown : OnOwnLists (scriptCall :: script)) : OnOwnLists script := by
  cases scriptCall with
  | create => exact hown
  | delete index => exact hown.2
  | on index operation => exact hown.2

theorem Carries.ownBlocks_eq (hcarries : Carries script later) :
    ownBlocks (later ++ base) = ownBlocks base := by
  induction later generalizing script with
  | nil => rfl
  | cons exchange later ih =>
      cases script with
      | nil => exact hcarries.elim
      | cons scriptCall script =>
          obtain ⟨request, result, before, after⟩ := exchange
          obtain ⟨hrequest, hearlier⟩ := hcarries
          obtain rfl : request = scriptCall.resolve (handleOf later) := hrequest
          rw [← ih hearlier]
          cases scriptCall <;> rfl

namespace Succeeds

/-! ## What a script does in a run -/

theorem runAt (hsucceeds : Succeeds target history state) :
    ∃ owner views lists, RunAt target history state owner views lists :=
  RunAt.of_run hsucceeds.run hsucceeds.sound

theorem pooled (hsucceeds : Succeeds target history state) : Pooled target history state :=
  .of_run hsucceeds.run hsucceeds.sound hsucceeds.succeeds

/-- The last call of a run, and the run before it. -/
theorem last (hsucceeds : Succeeds target (exchange :: history) state) :
    Succeeds target history exchange.before ∧
      (listInterface target).allowed history exchange.before exchange.request ∧
      exchange.request.BlockSize target.Sound ∧
      (exchange.request.perform target).run 0 exchange.before = .done exchange.result 0 state ∧
      exchange.after = state ∧ ¬ CreateFails target exchange := by
  obtain ⟨hrun, hsound, hsucceeds⟩ := hsucceeds
  obtain ⟨hcall, hearlier⟩ := List.forall_mem_cons.mp hsound
  obtain ⟨hsucceed, hsucceeded⟩ := List.forall_mem_cons.mp hsucceeds
  cases hrun with
  | step prior isAllowed returned =>
      exact ⟨⟨prior, hearlier, hsucceeded⟩, isAllowed, hcall, returned, rfl, hsucceed⟩

/-- A run goes on with one more call. -/
theorem step (hsucceeds : Succeeds target history state)
    (hallowed : (listInterface target).allowed history state call)
    (hsound : call.BlockSize target.Sound)
    (hreturned : (call.perform target).run 0 state = .done reply 0 after)
    (hsucceed : ¬ CreateFails target ⟨call, reply, state, after⟩) :
    Succeeds target (⟨call, reply, state, after⟩ :: history) after where
  run := .step hsucceeds.run hallowed hreturned
  sound := List.forall_mem_cons.mpr ⟨hsound, hsucceeds.sound⟩
  succeeds := List.forall_mem_cons.mpr ⟨hsucceed, hsucceeds.succeeds⟩

/-- The earlier part of a run. -/
theorem of_append (hlater : Succeeds target (later ++ base) after) :
    ∃ state, Succeeds target base state := by
  induction later generalizing after with
  | nil => exact ⟨after, hlater⟩
  | cons exchange later ih => exact ih hlater.last.1

theorem growsAtPeak (hsucceeds : Succeeds target history state) :
    ∀ exchange ∈ history, GrowsAtPeak target exchange := by
  induction history generalizing state with
  | nil => exact fun _ hexchange => nomatch hexchange
  | cons exchange history ih =>
      obtain ⟨hprior, hallowed, hsound, hreturned, rfl, hsucceed⟩ := hsucceeds.last
      obtain ⟨owner, views, lists, hat⟩ := hprior.runAt
      exact List.forall_mem_cons.mpr
        ⟨hat.growsAtPeak hallowed.1 hsound hreturned hsucceed, ih hprior⟩

theorem flag_kept (hsucceeds : Succeeds target history state) :
    ∀ exchange ∈ history, exchange.after.memPoolsCreated = true →
      state.memPoolsCreated = true := by
  induction history generalizing state with
  | nil => exact fun _ hexchange => nomatch hexchange
  | cons exchange history ih =>
      obtain ⟨hprior, hallowed, -, hreturned, rfl, -⟩ := hsucceeds.last
      obtain ⟨owner, views, lists, hat⟩ := hprior.runAt
      refine List.forall_mem_cons.mpr ⟨id, fun other hother hflag => ?_⟩
      exact hat.flag_kept hallowed.1 hreturned (ih hprior other hother hflag)

theorem grows (hbase : Succeeds target base state) (hlater : Succeeds target (later ++ base) after) :
    state.log <:+ after.log := by
  induction later generalizing after with
  | nil =>
      obtain rfl := hbase.run.state_unique hlater.run
      exact List.suffix_refl _
  | cons exchange later ih =>
      obtain ⟨hprior, hallowed, hsound, hreturned, -, -⟩ := hlater.last
      obtain ⟨owner, views, lists, hat⟩ := hprior.runAt
      exact (ih hprior).trans (hat.grows hallowed.1 hallowed.2 hsound hreturned)

/-- The items of the lists there are. -/
theorem heldItems (hsucceeds : Succeeds target history state) : ∃ items : Nat → List Nat,
    ∀ sequences, SpecRun target history sequences →
      ∀ list ∈ liveLists history, sequences list = some (items list) := by
  obtain ⟨owner, views, lists, hat⟩ := hsucceeds.runAt
  refine ⟨fun list => (sequencesOf (cellsOf target state.mem) lists list).getD [], ?_⟩
  intro sequences hspec list hlist
  obtain ⟨content, hcontent, -⟩ := hat.of_live hlist
  obtain rfl := hspec.unique hat.spec
  change _ = some (Option.getD _ [])
  rw [hcontent, Option.getD_some]

/-- A run that executes a script holds the lists the script tells of. -/
theorem tracks (hlater : Succeeds target (later ++ base) state) (hcarries : Carries script later)
    (hown : OnOwnLists script)
    (hbase : ∀ sequences, SpecRun target base sequences →
      ∀ list ∈ liveLists base, sequences list = some (items list))
    (hspec : SpecRun target (later ++ base) sequences) :
    Tracks base items script later sequences := by
  induction later generalizing script state sequences with
  | nil =>
      cases script with
      | nil => exact .start (hbase sequences hspec)
      | cons scriptCall script => exact hcarries.elim
  | cons exchange later ih =>
      cases script with
      | nil => exact hcarries.elim
      | cons scriptCall script =>
          obtain ⟨hprior, hallowed, -, -, -, hsucceed⟩ := hlater.last
          obtain ⟨hrequest, hearlier⟩ := hcarries
          obtain ⟨owner, views, lists, hat⟩ := hprior.runAt
          cases hspec with
          | step prior step =>
              obtain rfl := prior.unique hat.spec
              exact (ih hprior hearlier hown.tail prior).step hat.liveLists_nodup hown hrequest
                (hat.never_short hallowed.1 hsucceed step)

/-- While a script is executed its lists take as many blocks as it says. -/
theorem allocated (hbase : Succeeds target base state)
    (hlater : Succeeds target (later ++ base) after) (hcarries : Carries script later)
    (hown : OnOwnLists script) :
    (allocatedBlocks target after (3 * target.word)).length = scriptWeight script +
      (allocatedBlocks target state (3 * target.word)).length := by
  obtain ⟨owner, views, lists, hat⟩ := hbase.runAt
  obtain ⟨larger, others, rest, hafter⟩ := hlater.runAt
  obtain ⟨items, hitems⟩ := hbase.heldItems
  have htracks := hlater.tracks hcarries hown hitems hafter.spec
  have hsame : (ownBlocks base).filter (fun data =>
      decide (data - target.word ∈ blocksAdded (3 * target.word) after.log)) =
      (ownBlocks base).filter fun data =>
        decide (data - target.word ∈ blocksAdded (3 * target.word) state.log) := by
    apply List.filter_congr
    intro data hdata
    have hout := hat.memory.out.mem_iff.mpr (List.mem_append_right _ hdata)
    rw [decide_eq_decide]
    exact hat.memory.pools.mem_blocksAdded_iff hafter.memory.pools (hbase.grows hlater) hout
  rw [hafter.length_allocated hlater.pooled, hat.length_allocated hbase.pooled,
    htracks.weight_eq, hcarries.ownBlocks_eq, hsame, weight_congr (hitems _ hat.spec)]
  exact Nat.add_assoc _ _ _

/-- A block is spare where fewer are handed out than once before, of those that
there were then and are still. -/
theorem spare_later (hsucceeds : Succeeds target history state)
    (hlater : Succeeds target later after)
    (hmade : blocksAdded (3 * target.word) state.log <:+ blocksAdded (3 * target.word) after.log)
    (hfewer : (allocatedBlocks target after (3 * target.word)).length <
      (allocatedBlocks target state (3 * target.word)).length) :
    ¬ AllAllocated target (3 * target.word) after := by
  intro hfull
  obtain ⟨owner, views, lists, hat⟩ := hsucceeds.runAt
  obtain ⟨larger, others, rest, hafter⟩ := hlater.runAt
  have hcapacity := hat.memory.pools.allocated_le (3 * target.word)
  have hused := hafter.memory.pools.le_allocated hfull
  have hkept := hmade.length_le
  omega

end Succeeds

/-! ## Executing a script again -/

namespace TakesNothing

theorem refl (state : State) : TakesNothing target state state := ⟨rfl, rfl, rfl⟩

theorem trans (hfirst : TakesNothing target state before)
    (hnext : TakesNothing target before after) : TakesNothing target state after where
  heap := hnext.heap.trans hfirst.heap
  blocks := hnext.blocks.trans hfirst.blocks
  flag := hnext.flag.trans hfirst.flag

theorem of_steady (hsteady : Steady state after) : TakesNothing target state after :=
  ⟨hsteady.heap, hsteady.blocks _, hsteady.flag⟩

/-- A call that finds a spare block takes it. -/
theorem of_asksOne {failed : Prop}
    (hasks : AsksOne target (3 * target.word) state after failed)
    (hspare : ¬ AllAllocated target (3 * target.word) state) :
    ¬ failed ∧ TakesNothing target state after := by
  obtain ⟨hdone, hheap, hblocks⟩ := hasks.spare hspare
  exact ⟨hdone, hheap, hblocks, hasks.flag⟩

end TakesNothing

/-- A call on lists succeeds with what the pools hold if they hold what it
needs. -/
theorem RunAt.takesNothing (hrun : RunAt target history state owner views lists)
    (hvalid : call.Valid target history state)
    (hreturned : (call.perform target).run 0 state = .done reply 0 after)
    (hlist : ∀ pool, call ≠ .pool pool) (hflag : call = .create → state.memPoolsCreated = true)
    (hspare : call.Asks target state → ¬ AllAllocated target (3 * target.word) state) :
    ¬ CreateFails target ⟨call, reply, state, after⟩ ∧ TakesNothing target state after := by
  cases call with
  | create =>
      obtain ⟨list, rfl, ⟨-, hasks⟩ | ⟨hfirst, -⟩⟩ := hrun.create_cases hreturned
      · obtain ⟨hne, htakes⟩ := TakesNothing.of_asksOne hasks (hspare trivial)
        exact ⟨fun hfails => hne (ListReply.pointer.inj hfails), htakes⟩
      · rw [hflag rfl] at hfirst
        cases hfirst
  | delete list => exact ⟨id, .of_steady (delete_steady hreturned)⟩
  | on list operation =>
      rcases hrun.operation_asksOne hvalid hreturned with ⟨hneeds, hasks⟩ | ⟨hnot, hsteady⟩
      · obtain ⟨hdone, htakes⟩ := TakesNothing.of_asksOne hasks (hspare hneeds)
        exact ⟨fun hfails => hdone hfails.2, htakes⟩
      · refine ⟨fun hfails => ?_, .of_steady hsteady⟩
        rw [hfails.1] at hnot
        cases hnot
  | pool pool => exact absurd rfl (hlist pool)

namespace Tracks

variable {otherBase : List ListExchange} {otherItems : Nat → List Nat} {otherSequences : Sequences}

/-- What a call of a script asks for is what the script needs more. -/
theorem scriptWeight_of_asks (hrun : RunAt target (later ++ base) state owner views lists)
    (htracks : Tracks base items script later (sequencesOf (cellsOf target state.mem) lists))
    (hown : OnOwnLists (scriptCall :: script))
    (hvalid : (scriptCall.resolve (handleOf later)).Valid target (later ++ base) state)
    (hasks : (scriptCall.resolve (handleOf later)).Asks target state) :
    scriptWeight (scriptCall :: script) = scriptWeight script + 1 := by
  cases scriptCall with
  | create => exact scriptWeight_create
  | delete index => exact hasks.elim
  | on index operation =>
      obtain ⟨content, hcontent, -, hiff⟩ := hrun.of_live hvalid.1
      obtain rfl := Option.some.inj (hcontent.symm.trans (htracks.own index hown.1))
      exact scriptWeight_on hown.1 ((hiff operation hvalid.2).mp hasks)

/-- What a script may call it may call again. -/
theorem allowed_again (hrun : RunAt target (first ++ base) before owner views lists)
    (htracks : Tracks base items script first (sequencesOf (cellsOf target before.mem) lists))
    (hallowed : (listInterface target).allowed (first ++ base) before
      (scriptCall.resolve (handleOf first)))
    (hown : OnOwnLists (scriptCall :: script)) {larger : Ownership} {others : List PoolView}
    {rest : List ListView} (hagain : RunAt target (second ++ history) after larger others rest)
    (hsame : Tracks history otherItems script second
      (sequencesOf (cellsOf target after.mem) rest)) :
    (listInterface target).allowed (second ++ history) after
      (scriptCall.resolve (handleOf second)) := by
  cases scriptCall with
  | create => exact ⟨trivial, trivial⟩
  | delete index => exact ⟨hsame.handle_mem hown.1, trivial⟩
  | on index operation =>
      have hlive := hsame.handle_mem hown.1
      refine ⟨⟨hlive, hallowed.1.2⟩, fun hsort => ?_⟩
      -- The list is as long as it was the first time.
      obtain ⟨content, hcontent, hcount, -⟩ := hrun.of_live (htracks.handle_mem hown.1)
      obtain ⟨again, hagain, hagainCount, -⟩ := hagain.of_live hlive
      obtain rfl := Option.some.inj (hcontent.symm.trans (htracks.own index hown.1))
      obtain rfl := Option.some.inj (hagain.symm.trans (hsame.own index hown.1))
      rw [hagainCount, ← hcount]
      exact hallowed.2 hsort

end Tracks

theorem ScriptCall.resolve_ne_pool (scriptCall : ScriptCall) (handles : Nat → Nat)
    (pool : PoolCall) : scriptCall.resolve handles ≠ .pool pool := by
  cases scriptCall <;> simp [ScriptCall.resolve]

theorem ScriptCall.resolve_blockSize (scriptCall : ScriptCall) (handles : Nat → Nat)
    (condition : Nat → Prop) : (scriptCall.resolve handles).BlockSize condition := by
  cases scriptCall <;> trivial

/-- A script that was executed once is executed again with the blocks there are
then, if as many are free as there were the first time or were made for it. -/
theorem Succeeds.again (hstart : Succeeds target base start)
    (hfirst : Succeeds target (first ++ base) middle) (hcarries : Carries script first)
    (hown : OnOwnLists script) (hstate : Succeeds target history state)
    (hfree : (allocatedBlocks target state (3 * target.word)).length ≤
      (allocatedBlocks target start (3 * target.word)).length)
    (hmade : middle.log <:+ state.log)
    (hflag : ∀ exchange ∈ first, exchange.after.memPoolsCreated = true →
      state.memPoolsCreated = true) :
    ∃ second after, Succeeds target (second ++ history) after ∧ Carries script second ∧
      TakesNothing target state after := by
  induction first generalizing script middle with
  | nil =>
      cases script with
      | nil => exact ⟨[], state, hstate, trivial, .refl state⟩
      | cons scriptCall script => exact hcarries.elim
  | cons exchange first ih =>
      cases script with
      | nil => exact hcarries.elim
      | cons scriptCall script =>
          obtain ⟨hprior, hallowed, hsound, hreturned, hafter, -⟩ := hfirst.last
          have ⟨hrequest, hearlier⟩ := hcarries
          obtain ⟨owner, views, lists, hat⟩ := hprior.runAt
          have hstep := hat.grows hallowed.1 hallowed.2 hsound hreturned
          obtain ⟨hlater, hflagFirst⟩ := List.forall_mem_cons.mp hflag
          obtain ⟨second, next, hsecond, hsecondCarries, hnothing⟩ :=
            ih hprior hearlier hown.tail (hstep.trans hmade) hflagFirst
          obtain ⟨items, hitems⟩ := hstart.heldItems
          obtain ⟨otherItems, hotherItems⟩ := hstate.heldItems
          have htracks := hprior.tracks hearlier hown.tail hitems hat.spec
          obtain ⟨larger, others, rest, hagain⟩ := hsecond.runAt
          have hsame := hsecond.tracks hsecondCarries hown.tail hotherItems hagain.spec
          have hmay := htracks.allowed_again hat (hrequest ▸ hallowed) hown hagain hsame
          have hspare : (scriptCall.resolve (handleOf second)).Asks target next →
              ¬ AllAllocated target (3 * target.word) next := by
            intro hasks
            have hweight := hsame.scriptWeight_of_asks hagain hown hmay.1 hasks
            have hthen := hstart.allocated hfirst hcarries hown
            have hnow := hstate.allocated hsecond hsecondCarries hown.tail
            apply hfirst.spare_later hsecond (hnothing.blocks ▸ blocksAdded_suffix _ hmade)
            omega
          have hcreated : scriptCall.resolve (handleOf second) = .create →
              next.memPoolsCreated = true := by
            intro hcreate
            rw [hnothing.flag]
            apply hlater
            have hsameCall : exchange.request = .create := by
              rw [hrequest]
              cases scriptCall <;> simp_all [ScriptCall.resolve]
            rw [hafter]
            exact hat.create_flag (hsameCall ▸ hreturned)
          have hcallSound := scriptCall.resolve_blockSize (handleOf second) target.Sound
          obtain ⟨reply, after, hdone, -⟩ := (hagain.step hmay.1 hmay.2 hcallSound).run 0
          obtain ⟨hsucceed, htakes⟩ := hagain.takesNothing hmay.1 hdone
            (scriptCall.resolve_ne_pool _) hcreated hspare
          refine ⟨⟨scriptCall.resolve (handleOf second), reply, next, after⟩ :: second, after, ?_, ?_,
            hnothing.trans htakes⟩
          · exact hsecond.step hmay hcallSound hdone hsucceed
          · exact ⟨rfl, hsecondCarries⟩

theorem Carries.unique (hcarries : Carries script first) (hother : Carries script second)
    (hfirst : (listInterface target).Run (first ++ base) state)
    (hsecond : (listInterface target).Run (second ++ base) after) :
    first = second ∧ state = after := by
  induction script generalizing first second state after with
  | nil =>
      cases first with
      | cons exchange first => exact hcarries.elim
      | nil =>
          cases second with
          | cons exchange second => exact hother.elim
          | nil => exact ⟨rfl, hfirst.state_unique hsecond⟩
  | cons scriptCall script ih =>
      cases first with
      | nil => exact hcarries.elim
      | cons exchange first =>
          cases second with
          | nil => exact hother.elim
          | cons other second =>
              obtain ⟨hrequest, hearlier⟩ := hcarries
              obtain ⟨hotherRequest, hotherEarlier⟩ := hother
              cases hfirst with
              | step prior isAllowed returned =>
                  cases hsecond with
                  | step otherPrior otherAllowed otherReturned =>
                      obtain ⟨rfl, rfl⟩ := ih hearlier hotherEarlier prior otherPrior
                      obtain rfl := hrequest.trans hotherRequest.symm
                      rw [returned] at otherReturned
                      cases otherReturned
                      exact ⟨rfl, rfl⟩

/-! ## The law -/

/-- Memory use follows the peak: a pool grows only when all its blocks are
handed out, and what was executed once and left nothing behind is executed
again without a byte of the heap. -/
theorem memory_bounded_by_peak (hrun : (listInterface target).Run history state)
    (hsound : ∀ exchange ∈ history, exchange.request.BlockSize target.Sound)
    (hsucceeds : ∀ exchange ∈ history, ¬ CreateFails target exchange) :
    (∀ exchange ∈ history, GrowsAtPeak target exchange) ∧
      ∀ script first earlier, history = first ++ earlier → Carries script first →
        OnOwnLists script → scriptLive script = [] →
        (∃ second after, (listInterface target).Run (second ++ history) after ∧
          Carries script second) ∧
        ∀ second after, (listInterface target).Run (second ++ history) after →
          Carries script second → after.tbxHeapAllocated = state.tbxHeapAllocated := by
  have hall : Succeeds target history state := ⟨hrun, hsound, hsucceeds⟩
  refine ⟨fun exchange hexchange => ?_, ?_⟩
  · exact hall.growsAtPeak exchange hexchange
  · intro script first earlier hsplit hcarries hown hdeleted
    subst hsplit
    obtain ⟨start, hstart⟩ := hall.of_append
    have hfree := hstart.allocated hall hcarries hown
    rw [scriptWeight, hdeleted, List.map_nil, List.sum_nil, Nat.zero_add] at hfree
    have hflag : ∀ exchange ∈ first, exchange.after.memPoolsCreated = true →
        state.memPoolsCreated = true :=
      fun exchange hexchange => hall.flag_kept exchange (List.mem_append_left _ hexchange)
    obtain ⟨second, after, hsecond, hagain, hnothing⟩ :=
      hstart.again hall hcarries hown hall hfree.le (List.suffix_refl _) hflag
    refine ⟨⟨second, after, hsecond.run, hagain⟩, fun other final hother hotherCarries => ?_⟩
    obtain ⟨rfl, rfl⟩ := hagain.unique hotherCarries hsecond.run hother
    exact hnothing.heap

/-- A list that is filled from both ends and deleted. -/
def repeatedScript : List ScriptCall :=
  [.delete 0, .on 0 (.insertItemFront 7), .on 0 (.insertItemBack 5), .create]

/-- The script executed while the application holds a block of the pool. -/
def repeatedCalls : List ListCall :=
  repeatedScript.map (ScriptCall.resolve fun _ => 4272) ++ [.pool (.allocateAuto 24)]

theorem memory_bounded_by_peak_repeated : ∃ history state second after,
    (listInterface linux64).Run history state ∧ history.map Exchange.request = repeatedCalls ∧
      (∀ exchange ∈ history, GrowsAtPeak linux64 exchange) ∧
      (listInterface linux64).Run (second ++ history) after ∧ Carries repeatedScript second ∧
      after.tbxHeapAllocated = state.tbxHeapAllocated := by
  have hexecutes : ((listInterface linux64).execute repeatedCalls).map (fun outcome =>
      (outcome.1.map Exchange.result,
        decide (∀ exchange ∈ outcome.1, ¬ CreateFails linux64 exchange))) =
      some ([.none, .status .ok, .status .ok, .pointer 4272, .pool (.pointer 4176)], true) := by
    decide +kernel
  obtain ⟨history, state, hrun, hrequests, hobserved⟩ := Interface.execute_map hexecutes
  obtain ⟨hresults, hnone⟩ := Prod.mk.inj hobserved
  have hsound : ∀ request ∈ history.map Exchange.request, request.BlockSize linux64.Sound := by
    rw [hrequests]
    decide
  obtain ⟨hgrows, hrepeats⟩ := memory_bounded_by_peak hrun (List.forall_mem_map.mp hsound)
    (of_decide_eq_true hnone)
  obtain ⟨first, earlier, rfl, hfirst, -⟩ := List.map_eq_append_iff.mp hrequests
  -- The handle that the script was given is that of its list.
  have hcarries : Carries repeatedScript first := by
    obtain ⟨deleted, first, rfl, hdeleted, hfirst⟩ := List.map_eq_cons_iff.mp hfirst
    obtain ⟨⟨request3, _, _, _⟩, first, rfl, hfront, hfirst⟩ := List.map_eq_cons_iff.mp hfirst
    obtain ⟨⟨request2, _, _, _⟩, first, rfl, hback, hfirst⟩ := List.map_eq_cons_iff.mp hfirst
    obtain ⟨⟨request1, result, _, _⟩, first, rfl, hcreate, hfirst⟩ :=
      List.map_eq_cons_iff.mp hfirst
    cases List.map_eq_nil_iff.mp hfirst
    obtain rfl : request3 = .on 4272 (.insertItemFront 7) := hfront
    obtain rfl : request2 = .on 4272 (.insertItemBack 5) := hback
    obtain rfl : request1 = .create := hcreate
    have hcreated : result = .pointer 4272 := by simp_all
    subst hcreated
    exact ⟨hdeleted, rfl, rfl, rfl, trivial⟩
  obtain ⟨⟨second, after, hsecond, hagain⟩, hall⟩ := hrepeats repeatedScript first earlier rfl hcarries
    (by simp [OnOwnLists, repeatedScript, scriptLive, scriptCreated])
    (by decide)
  exact ⟨_, state, second, after, hrun, hrequests, hgrows, hsecond, hagain,
    hall second after hsecond hagain⟩

end MicroTbx

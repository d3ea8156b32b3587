import MicroTbx.List.Script

/-! # The lists of a script

While a run executes a script, the lists that it holds are those there were
before and those the script tells of, with the items it tells. So the script
tells how many blocks of the pool of the lists are handed out.
-/

namespace MicroTbx

open Program

/-- The blocks that lists with these sequences need. -/
def weight (sequences : Sequences) (live : List Nat) : Nat :=
  (live.map fun list => ((sequences list).getD []).length + 1).sum

/-- The lists of a script and those there were before, with the items of each
in the sequences. -/
structure Tracks (base : List ListExchange) (items : Nat → List Nat) (script : List ScriptCall)
    (later : List ListExchange) (sequences : Sequences) : Prop where
  created : listsCreated later = scriptCreated script
  live : (liveLists (later ++ base)).Perm
    ((scriptLive script).map (handleOf later) ++ liveLists base)
  own : ∀ index ∈ scriptLive script, sequences (handleOf later index) =
    some (scriptItems script index)
  others : ∀ list ∈ liveLists base, sequences list = some (items list)

variable {target : Target} {owner : Ownership} {views : List PoolView} {lists : List ListView}
  {state after : State} {base later history : List ListExchange} {exchange : ListExchange}
  {call : ListCall} {reply : ListReply} {scriptCall : ScriptCall} {script : List ScriptCall}
  {sequences next : Sequences} {items : Nat → List Nat} {short : Nat → Prop} {index : Nat}

/-! ## What the lists need -/

theorem weight_perm {live other : List Nat} (hperm : live.Perm other) :
    weight sequences live = weight sequences other := (hperm.map _).sum_eq

theorem weight_append (live other : List Nat) :
    weight sequences (live ++ other) = weight sequences live + weight sequences other := by
  rw [weight, List.map_append, List.sum_append, weight, weight]

theorem weight_congr {live : List Nat} (hsame : ∀ list ∈ live, next list = sequences list) :
    weight next live = weight sequences live := by
  rw [weight, weight]
  congr 1
  apply List.map_congr_left
  intro list hlist
  rw [hsame list hlist]

/-- The blocks of the lists, told by their sequences. -/
theorem length_blocksOf {cells : Cells} (hnodup : (lists.map ListView.header).Nodup) :
    (blocksOf lists).length = weight (sequencesOf cells lists) (lists.map ListView.header) := by
  induction lists with
  | nil => rfl
  | cons view lists ih =>
      rw [List.map_cons, List.nodup_cons] at hnodup
      have hrest : weight (sequencesOf cells (view :: lists)) (lists.map ListView.header) =
          weight (sequencesOf cells lists) (lists.map ListView.header) := by
        apply weight_congr
        intro list hlist
        rw [sequencesOf, Function.update_of_ne]
        rintro rfl
        exact hnodup.1 hlist
      have hview : (itemsOf cells view.nodes).length = view.nodes.length := by
        rw [itemsOf, List.length_map]
      rw [weight] at hrest
      rw [weight, List.map_cons, List.map_cons, List.sum_cons, hrest, sequencesOf_front,
        Option.getD_some, hview, blocksOf_cons, List.length_cons, List.length_append,
        ih hnodup.2]
      omega

namespace Tracks

/-- Before its first call a script has no lists. -/
theorem start (hbase : ∀ list ∈ liveLists base, sequences list = some (items list)) :
    Tracks base items [] [] sequences where
  created := rfl
  live := .refl _
  own := fun _ hindex => nomatch hindex
  others := hbase

theorem handle_mem (htracks : Tracks base items script later sequences)
    (hindex : index ∈ scriptLive script) :
    handleOf later index ∈ liveLists (later ++ base) :=
  htracks.live.mem_iff.mpr (List.mem_append_left _ (List.mem_map_of_mem hindex))

theorem nodup (htracks : Tracks base items script later sequences)
    (hnodup : (liveLists (later ++ base)).Nodup) :
    ((scriptLive script).map (handleOf later) ++ liveLists base).Nodup :=
  htracks.live.nodup_iff.mp hnodup

/-- The lists of a script need what the script says. -/
theorem weight_eq (htracks : Tracks base items script later sequences) :
    weight sequences (liveLists (later ++ base)) =
      scriptWeight script + weight (fun list => some (items list)) (liveLists base) := by
  have hown : weight sequences ((scriptLive script).map (handleOf later)) =
      scriptWeight script := by
    rw [weight, scriptWeight, List.map_map]
    congr 1
    apply List.map_congr_left
    intro index hindex
    rw [Function.comp_apply, htracks.own index hindex, Option.getD_some]
  rw [weight_perm htracks.live, weight_append, hown, weight_congr htracks.others]

/-- A call that changes one list of the script leaves the others alone. -/
theorem others_update (htracks : Tracks base items script later sequences)
    (hnodup : (liveLists (later ++ base)).Nodup) (hindex : index ∈ scriptLive script)
    (changed : Option (List Nat)) {list : Nat} (hlist : list ∈ liveLists base) :
    Function.update sequences (handleOf later index) changed list = some (items list) := by
  have hne := (List.nodup_append.mp (htracks.nodup hnodup)).2.2 _ (List.mem_map_of_mem hindex)
    list hlist
  rw [Function.update_of_ne hne.symm, htracks.others list hlist]

theorem own_update (htracks : Tracks base items script later sequences)
    (hnodup : (liveLists (later ++ base)).Nodup) (hindex : index ∈ scriptLive script)
    (changed : Option (List Nat)) {other : Nat} (hother : other ∈ scriptLive script)
    (hne : other ≠ index) :
    Function.update sequences (handleOf later index) changed (handleOf later other) =
      some (scriptItems script other) := by
  have hinj := List.inj_on_of_nodup_map (List.nodup_append.mp (htracks.nodup hnodup)).1
  rw [Function.update_of_ne fun heq => hne (hinj hother hindex heq), htracks.own other hother]

/-- One call of a script, when memory is not short. -/
theorem step (htracks : Tracks base items script later sequences)
    (hnodup : (liveLists (later ++ base)).Nodup)
    (hown : OnOwnLists (scriptCall :: script))
    (hrequest : exchange.request = scriptCall.resolve (handleOf later))
    (hstep : SpecStep (fun _ => False) sequences exchange.request exchange.result next) :
    Tracks base items (scriptCall :: script) (exchange :: later) next := by
  obtain ⟨request, reply, before, after⟩ := exchange
  obtain rfl : request = scriptCall.resolve (handleOf later) := hrequest
  cases scriptCall with
  | create =>
      cases hstep with
      | @create list ne_null fresh =>
          have hold : ∀ index ∈ scriptLive script,
              handleOf (⟨.create, .pointer list, before, after⟩ :: later) index =
                handleOf later index := by
            intro index hindex
            rw [handleOf, htracks.created, Function.update_of_ne (scriptLive_lt hindex).ne]
          have hnew : handleOf (⟨.create, .pointer list, before, after⟩ :: later)
              (scriptCreated script) = list := by
            rw [handleOf, htracks.created, Function.update_self]
          have hother : ∀ {other : Nat} {content : List Nat}, sequences other = some content →
              Function.update sequences list (some []) other = some content := by
            intro other content hsome
            rw [Function.update_of_ne, hsome]
            rintro rfl
            rw [fresh] at hsome
            cases hsome
          refine ⟨congrArg (· + 1) htracks.created, ?_, fun index hindex => ?_, fun other hmem =>
            hother (htracks.others other hmem)⟩
          · rw [List.cons_append, ScriptCall.resolve, liveLists, if_pos ne_null, scriptLive,
              List.map_cons, hnew, List.map_congr_left hold]
            exact htracks.live.cons list
          · rcases List.mem_cons.mp hindex with rfl | hearlier
            · rw [ScriptCall.resolve, hnew, scriptItems, Function.update_self, Function.update_self]
            · rw [ScriptCall.resolve, hold index hearlier, scriptItems,
                Function.update_of_ne (scriptLive_lt hearlier).ne]
              exact hother (htracks.own index hearlier)
      | createFailed memory => exact memory.elim
  | delete index =>
      cases hstep with
      | delete live =>
          refine ⟨htracks.created, ?_, fun other hother => ?_, fun list hlist =>
            htracks.others_update hnodup hown.1 none hlist⟩
          · have hperm := htracks.live.trans
              (((List.perm_cons_erase hown.1).map (handleOf later)).append_right _)
            have herase := hperm.erase (handleOf later index)
            rwa [List.map_cons, List.cons_append, List.erase_cons_head] at herase
          · obtain ⟨hne, hmem⟩ := (scriptLive_nodup script).mem_erase_iff.mp hother
            exact htracks.own_update hnodup hown.1 none hmem hne
  | on index operation =>
      have hitems := htracks.own index hown.1
      cases hstep with
      | on live =>
          obtain rfl := Option.some.inj (live.symm.trans hitems)
          refine ⟨htracks.created, htracks.live, fun other hother => ?_, fun list hlist =>
            htracks.others_update hnodup hown.1 _ hlist⟩
          by_cases hne : other = index
          · subst hne
            rw [scriptItems, Function.update_self]
            exact Function.update_self ..
          · rw [scriptItems, Function.update_of_ne hne]
            exact htracks.own_update hnodup hown.1 _ hother hne
      | onFailed live allocates memory => exact memory.elim

end Tracks

/-! ## What a run tells of its lists -/

namespace RunAt

variable (hrun : RunAt target history state owner views lists)
include hrun

theorem liveLists_nodup : (liveLists history).Nodup :=
  hrun.live.nodup_iff.mp hrun.memory.headers_nodup

/-- What memory shows of a live list. -/
theorem of_live {list : Nat} (hlist : list ∈ liveLists history) :
    ∃ content, sequencesOf (cellsOf target state.mem) lists list = some content ∧
      state.mem (target.field list TbxList.nodeCount) = content.length ∧
      ∀ operation : ListOperation, operation.Valid →
        (operation.asks target state list = true ↔ operation.Allocates content) := by
  obtain ⟨view, rest, rfl, hfront⟩ := hrun.front hlist
  have hsequences := hrun.spec.unique hfront.spec
  have hcount := (hfront.memory.shape view List.mem_cons_self).count
  refine ⟨view.items target state, ?_, ?_, fun operation hvalid => hfront.memory.asks_iff hvalid⟩
  · rw [hsequences]
    exact sequencesOf_front
  · rw [ListView.items, itemsOf, List.length_map]
    exact hcount

/-- When no creation fails, memory is never short. -/
theorem never_short (hvalid : call.Valid target history state)
    (hsucceeds : ¬ CreateFails target ⟨call, reply, state, after⟩)
    (hstep : SpecStep short (sequencesOf (cellsOf target state.mem) lists) call reply next) :
    SpecStep (fun _ => False) (sequencesOf (cellsOf target state.mem) lists) call reply next := by
  cases hstep with
  | create ne_null fresh => exact .create ne_null fresh
  | createFailed memory => exact absurd rfl hsucceeds
  | delete live => exact .delete live
  | on live => exact .on live
  | @onFailed list content operation live allocates memory =>
      obtain ⟨found, hfound, -, hasks⟩ := hrun.of_live hvalid.1
      obtain rfl := Option.some.inj (live.symm.trans hfound)
      exact absurd ⟨(hasks operation hvalid.2).mpr allocates, rfl⟩ hsucceeds
  | pool => exact .pool

theorem create_flag
    (hreturned : (ListCall.create.perform target).run 0 state = .done reply 0 after) :
    after.memPoolsCreated = true := by
  obtain ⟨list, rfl, ⟨hflag, hasks⟩ | ⟨-, hcreates⟩⟩ := hrun.create_cases hreturned
  · rw [hasks.flag, hflag]
  · exact hcreates.flag

/-- Once the pools of the module are created they stay so. -/
theorem flag_kept (hvalid : call.Valid target history state)
    (hreturned : (call.perform target).run 0 state = .done reply 0 after)
    (hflag : state.memPoolsCreated = true) : after.memPoolsCreated = true := by
  cases call with
  | create => exact hrun.create_flag hreturned
  | delete list => rw [(delete_steady hreturned).flag, hflag]
  | on list operation =>
      rcases hrun.operation_asksOne hvalid hreturned with ⟨-, hasks⟩ | ⟨-, hsteady⟩
      · rw [hasks.flag, hflag]
      · rw [hsteady.flag, hflag]
  | pool pool =>
      obtain ⟨poolReply, between, middle, hpool, hrest⟩ := done_bind hreturned
      cases hrest
      have honward := (Onward.poolSteps.within_perform target pool).run Onward.refl Onward.trans 0 state
      rw [hpool] at honward
      exact honward.flag.trans hflag

/-- The blocks handed out of the pool of the lists: those of the lists, and
those of the application. -/
theorem length_allocated (hpooled : Pooled target history state) :
    (allocatedBlocks target state (3 * target.word)).length =
      weight (sequencesOf (cellsOf target state.mem) lists) (liveLists history) +
        ((ownBlocks history).filter fun data =>
          decide (data - target.word ∈ blocksAdded (3 * target.word) state.log)).length := by
  have hlists : (blocksOf lists).filter (fun data =>
      decide (data - target.word ∈ blocksAdded (3 * target.word) state.log)) = blocksOf lists := by
    rw [List.filter_eq_self]
    intro data hdata
    obtain ⟨hout, hnot⟩ := hrun.not_own hdata
    exact decide_eq_true (hpooled.objects data hout hnot)
  rw [allocatedBlocks, List.filter_map, List.length_map,
    (hrun.memory.out.filter _).length_eq, List.filter_append, List.length_append,
    ← weight_perm hrun.live, ← length_blocksOf hrun.memory.headers_nodup]
  congr 1
  exact congrArg List.length hlists

end RunAt

end MicroTbx

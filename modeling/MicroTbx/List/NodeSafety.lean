import MicroTbx.List.Refinement

/-! # Which nodes a call dereferences

In every reachable state a list call follows only pointers to nodes of its own
list, with one exception: sorting an empty list reads through `NULL`. This is
said of the log of the execution, whether it returns or not.
-/

namespace MicroTbx

open Program

variable {target : Target} {state : State} {history : List ListExchange} {call : ListCall}

/-- Sorting an empty list ends in a fault. -/
theorem sortItems_empty_run {list : Nat} {compareItemsFcn : CompareItems} (hlist : list ≠ null)
    (hfirst : state.mem (target.field list TbxList.firstNodePtr) = null) :
    ((ListCall.on list (.sortItems (some compareItemsFcn))).perform target).run 0 state =
      .faulted .nullDereference (state.emit (.nodeAccess null)) := by
  change (tbxListSortItems target list (some compareItemsFcn) >>= _).run 0 state = _
  rw [run_bind, tbxListSortItems_empty hlist hfirst]
  rfl

/-- A call made in a reachable state dereferences only nodes of the list it is
for, unless it sorts a list that is empty. -/
theorem list_nodes_safe_iff (hrun : (listInterface target).Run history state)
    (hsound : ∀ exchange ∈ history, exchange.request.BlockSize target.Sound)
    (hvalid : call.Valid target history state) :
    NodesSafe (MayFollow target state call) state.log
      ((call.perform target).run 0 state).state.log ↔ SortsItems target state call := by
  obtain ⟨owner, views, lists, hat⟩ := RunAt.of_run hrun hsound
  constructor
  · intro hsafe
    cases call with
    | on list operation =>
        intro hsort hempty
        obtain ⟨view, rest, rfl, hfront⟩ := hat.front hvalid.1
        have hcells := hfront.memory.listCells List.mem_cons_self
        have hnodes : view.nodes = [] :=
          List.length_eq_zero_iff.mp (hcells.shape.count.symm.trans hempty)
        have hfirst := hcells.shape.links.first_eq
        rw [hnodes, List.headD_nil] at hfirst
        cases operation with
        | sortItems compareItemsFcn =>
            obtain ⟨compareItemsFcn, rfl⟩ := Option.isSome_iff_exists.mp hvalid.2
            rw [sortItems_empty_run (hcells.apart.ne_null _ List.mem_cons_self) hfirst] at hsafe
            exact (hsafe null state.log (List.suffix_refl _) (List.suffix_refl _)).1 rfl
        | _ => exact hsort
    | _ => trivial
  · intro hsorts
    by_cases hpool : ∃ pool, call = .pool pool
    · obtain ⟨pool, rfl⟩ := hpool
      have hquiet : QuietCode ((ListCall.pool pool).perform target) :=
        (Quiet.poolSteps.within_perform target pool).bind fun _ => trivial
      exact (Traced.of_quiet (hquiet.run Quiet.refl Quiet.trans 0 state)).safe
    · have hlistCall : call.BlockSize target.Sound := by
        cases call with
        | pool pool => exact absurd ⟨pool, rfl⟩ hpool
        | _ => trivial
      obtain ⟨reply, after, hdone, -, htraced⟩ := (hat.step hvalid hsorts hlistCall).run 0
      rw [hdone]
      exact (htraced.resolve_left hpool).safe

/-- Three items out of order, after a fourth one was removed. -/
def unorderedCalls : List ListCall :=
  [.on 4224 (.removeItem 2), .on 4224 (.insertItemAfter 5 7), .on 4224 (.insertItemBack 3),
    .on 4224 (.insertItemFront 2), .on 4224 (.insertItemFront 7), .create]

/-- The sort reads and writes nodes of the list only. -/
theorem list_nodes_safe_iff_sorting : ∃ history state,
    (listInterface linux64).Run history state ∧ history.map Exchange.request = unorderedCalls ∧
      NodesSafe (MayFollow linux64 state (.on 4224 (.sortItems (some ascending)))) state.log
        ((ListCall.perform linux64 (.on 4224 (.sortItems (some ascending)))).run 0
          state).state.log := by
  have hexecutes : ((listInterface linux64).execute unorderedCalls).map (fun outcome =>
      decide (4224 ∈ liveLists outcome.1 ∧
        SortsItems linux64 outcome.2 (.on 4224 (.sortItems (some ascending))))) = some true := by
    decide +kernel
  obtain ⟨history, state, hrun, hrequests, hchecks⟩ := Interface.execute_map hexecutes
  obtain ⟨hlive, hsorts⟩ := of_decide_eq_true hchecks
  have hsound : ∀ request ∈ history.map Exchange.request, request.BlockSize linux64.Sound := by
    rw [hrequests]
    decide
  have hvalid : ListCall.Valid linux64 history state (.on 4224 (.sortItems (some ascending))) :=
    ⟨hlive, rfl⟩
  exact ⟨history, state, hrun, hrequests,
    (list_nodes_safe_iff hrun (List.forall_mem_map.mp hsound) hvalid).mpr hsorts⟩

/-- A list that was just created is sorted: the first access is one to `NULL`. -/
theorem sort_dereferences_null : ∃ history state, (listInterface linux64).Run history state ∧
    (∀ compareItemsFcn, ListCall.Valid linux64 history state
      (.on 4224 (.sortItems (some compareItemsFcn)))) ∧
    ∀ compareItemsFcn, ¬ NodesSafe
      (MayFollow linux64 state (.on 4224 (.sortItems (some compareItemsFcn)))) state.log
      ((ListCall.perform linux64 (.on 4224 (.sortItems (some compareItemsFcn)))).run 0
        state).state.log := by
  have hfacts : ((listInterface linux64).execute [.create]).map (fun outcome =>
      (decide (4224 ∈ liveLists outcome.1), outcome.2.mem (linux64.field 4224 TbxList.firstNodePtr)))
        = some (true, null) := by decide +kernel
  obtain ⟨history, state, hrun, -, hpair⟩ := Interface.execute_map hfacts
  obtain ⟨hlive, hfirst⟩ := Prod.mk.inj hpair
  refine ⟨history, state, hrun,
    fun compareItemsFcn => ⟨of_decide_eq_true hlive, rfl⟩, fun compareItemsFcn hsafe => ?_⟩
  rw [sortItems_empty_run (by decide) hfirst] at hsafe
  exact (hsafe null state.log (List.suffix_refl _) (List.suffix_refl _)).1 rfl

end MicroTbx

import MicroTbx.MemPool.Steps

/-! # The pools and the nodes of lists

The log grows with every function, and the functions of this module dereference
no node of a list.
-/

namespace MicroTbx

open Program

/-- Events were added to the log, none of which dereferences a list node. -/
def Quiet (before after : State) : Prop :=
  ∃ events, after.log = events ++ before.log ∧ ∀ node, .nodeAccess node ∉ events

namespace Quiet

theorem refl (state : State) : Quiet state state := ⟨[], rfl, fun _ => List.not_mem_nil⟩

theorem trans (first second third : State) (hfirst : Quiet first second)
    (hnext : Quiet second third) : Quiet first third := by
  obtain ⟨early, hearly, hearlyQuiet⟩ := hfirst
  obtain ⟨late, hlate, hlateQuiet⟩ := hnext
  refine ⟨late ++ early, by rw [hlate, hearly, List.append_assoc], fun node hmem => ?_⟩
  rcases List.mem_append.mp hmem with hmem | hmem
  · exact hlateQuiet node hmem
  · exact hearlyQuiet node hmem

theorem of_log_eq {before after : State} (hlog : after.log = before.log) : Quiet before after :=
  ⟨[], hlog, fun _ => List.not_mem_nil⟩

theorem emit {event : Event} (hevent : ∀ node, event ≠ .nodeAccess node) (state : State) :
    Quiet state (state.emit event) := by
  refine ⟨[event], rfl, fun node hmem => ?_⟩
  exact hevent node (List.mem_singleton.mp hmem).symm

/-- Every step of the pool functions is quiet. -/
theorem poolSteps : PoolSteps Quiet where
  refl := refl
  store := fun _ _ _ => of_log_eq rfl
  assertion := fun state _ _ => emit (by simp) state
  setPoolList := fun _ _ => of_log_eq rfl
  setHeapAllocated := fun _ _ => of_log_eq rfl
  heapTaken := fun state _ _ => emit (by simp) state
  blockAdded := fun state _ _ => emit (by simp) state
  allocated := fun state _ => emit (by simp) state
  released := fun state _ => emit (by simp) state

end Quiet

/-- The steps of a program are quiet. -/
abbrev QuietCode {Value : Type} (program : Code Value) : Prop := program.Within Quiet

end MicroTbx

import Mathlib.Data.List.Nodup
import Mathlib.Data.List.Perm.Basic
import Mathlib.Logic.Function.Basic

/-! # Loops over disjoint parts of an array

Every cell of an array belongs to one step of a loop, and a step reads and
writes only its own cells. Then the order of the steps does not matter: each
cell ends up as its own step makes it from the array before the loop, and a
loop of steps that undo these restores the array.
-/

namespace DisjointLoop

variable {Store Index Cell Step : Type*}

/-- The steps keep to the cells that belong to them. -/
structure Confined (read : Store → Index → Cell) (owner : Index → Step)
    (body : Store → Step → Store) (steps : List Step) : Prop where
  frame : ∀ step ∈ steps, ∀ store index, owner index ≠ step →
    read (body store step) index = read store index
  congr : ∀ step ∈ steps, ∀ store other,
    (∀ index, owner index = step → read store index = read other index) →
      ∀ index, owner index = step → read (body store step) index = read (body other step) index

variable {read : Store → Index → Cell} {owner : Index → Step} {body inverse : Store → Step → Store}
  {steps others : List Step} {store : Store} {index : Index}

theorem Confined.tail {step : Step} (hbody : Confined read owner body (step :: steps)) :
    Confined read owner body steps where
  frame := fun later hlater => hbody.frame later (List.mem_cons_of_mem _ hlater)
  congr := fun later hlater => hbody.congr later (List.mem_cons_of_mem _ hlater)

/-- Cells of no step stay as they are. -/
theorem Confined.foldl_of_not_mem (hbody : Confined read owner body steps)
    (hnot : owner index ∉ steps) : read (steps.foldl body store) index = read store index := by
  induction steps generalizing store with
  | nil => rfl
  | cons step rest ih =>
      rw [List.mem_cons, not_or] at hnot
      rw [List.foldl_cons, ih hbody.tail hnot.2,
        hbody.frame step List.mem_cons_self store index hnot.1]

/-- Each cell is what its own step makes of the array before the loop. -/
theorem Confined.foldl_of_mem (hbody : Confined read owner body steps) (hnodup : steps.Nodup)
    (hmem : owner index ∈ steps) :
    read (steps.foldl body store) index = read (body store (owner index)) index := by
  induction steps generalizing store with
  | nil => cases hmem
  | cons step rest ih =>
      obtain ⟨hnot, hrest⟩ := List.nodup_cons.mp hnodup
      rw [List.foldl_cons]
      by_cases hstep : owner index = step
      · subst hstep
        exact hbody.tail.foldl_of_not_mem hnot
      · rw [ih hbody.tail hrest ((List.mem_cons.mp hmem).resolve_left hstep)]
        apply hbody.congr _ hmem _ _ _ _ rfl
        intro other hother
        apply hbody.frame step List.mem_cons_self
        rw [hother]
        exact hstep

/-- A loop of steps that undo the steps of another one undoes it, in whatever
order either goes through them. -/
theorem Confined.foldl_inverse (hbody : Confined read owner body steps)
    (hinverse : Confined read owner inverse others) (hread : Function.Injective read)
    (hnodup : steps.Nodup) (hperm : others.Perm steps)
    (hundo : ∀ step ∈ steps, ∀ store, inverse (body store step) step = store) :
    others.foldl inverse (steps.foldl body store) = store := by
  apply hread
  funext index
  by_cases hmem : owner index ∈ steps
  · have hothers : owner index ∈ others := hperm.mem_iff.mpr hmem
    rw [hinverse.foldl_of_mem (hperm.nodup_iff.mpr hnodup) hothers,
      hinverse.congr _ hothers _ (body store (owner index)) _ index rfl, hundo _ hmem]
    intro other hother
    rw [← hother] at hmem ⊢
    exact hbody.foldl_of_mem hnodup hmem
  · rw [hinverse.foldl_of_not_mem fun hothers => hmem (hperm.mem_iff.mp hothers),
      hbody.foldl_of_not_mem hmem]

end DisjointLoop

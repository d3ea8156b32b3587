import Mathlib.Data.List.Basic
import Mathlib.Order.Lattice

/-! # Segregated storage with best fit

Size classes are kept in strictly ascending order. A request is answered by
the first class that is large enough, and only by that one. The order of sizes
and what a class holds are parameters.
-/

namespace BestFit

variable {Class Size : Type*} [LinearOrder Size] (size : Class → Size) (stocked : Class → Prop)

/-- Strictly ascending sizes. -/
def Ascending (classes : List Class) : Prop :=
  classes.Pairwise fun lower upper => size lower < size upper

/-- The class that answers a request. -/
def bestFit (classes : List Class) (request : Size) : Option Class :=
  classes.find? fun candidate => decide (request ≤ size candidate)

/-- The request can be answered. -/
def Serves (classes : List Class) (request : Size) : Prop :=
  ∃ fit, bestFit size classes request = some fit ∧ stocked fit

variable {size stocked} {front back classes : List Class} {middle other : Class} {request : Size}

theorem bestFit_append : bestFit size (front ++ back) request =
    (bestFit size front request).or (bestFit size back request) := by
  simp [bestFit, List.find?_append]

theorem bestFit_cons : bestFit size (middle :: back) request =
    if request ≤ size middle then some middle else bestFit size back request := by
  by_cases hfits : request ≤ size middle <;> simp [bestFit, hfits]

theorem bestFit_eq_none : bestFit size classes request = none ↔
    ∀ candidate ∈ classes, size candidate < request := by
  simp [bestFit]

theorem bestFit_mem {fit : Class} (hfit : bestFit size classes request = some fit) :
    fit ∈ classes ∧ request ≤ size fit := by
  unfold bestFit at hfit
  exact ⟨List.mem_of_find?_eq_some hfit, by simpa using List.find?_some hfit⟩

/-- The class of exactly the requested size is its best fit. -/
theorem Ascending.bestFit_exact (hascending : Ascending size (front ++ middle :: back)) :
    bestFit size (front ++ middle :: back) (size middle) = some middle := by
  have hsmaller : bestFit size front (size middle) = none := by
    rw [bestFit_eq_none]
    intro candidate hcandidate
    exact (List.pairwise_append.mp hascending).2.2 candidate hcandidate middle List.mem_cons_self
  rw [bestFit_append, hsmaller, Option.none_or, bestFit_cons, if_pos le_rfl]

theorem Ascending.ext {left right : Class} (hascending : Ascending size classes)
    (hleft : left ∈ classes) (hright : right ∈ classes) (hsize : size left = size right) :
    left = right := by
  induction classes with
  | nil => simp at hleft
  | cons head tail ih =>
      obtain ⟨hhead, htail⟩ := List.pairwise_cons.mp hascending
      rcases List.mem_cons.mp hleft with hleftHead | hleftTail <;>
        rcases List.mem_cons.mp hright with hrightHead | hrightTail
      · rw [hleftHead, hrightHead]
      · exact absurd hsize (hleftHead ▸ (hhead right hrightTail).ne)
      · exact absurd hsize (hrightHead ▸ (hhead left hleftTail).ne')
      · exact ih htail hleftTail hrightTail

/-- With ascending sizes the first class that is large enough is the smallest
one. -/
theorem Ascending.bestFit_le (hascending : Ascending size classes) {fit : Class}
    (hfit : bestFit size classes request = some fit) :
    ∀ candidate ∈ classes, request ≤ size candidate → size fit ≤ size candidate := by
  intro candidate hcandidate hlarge
  obtain ⟨-, before, behind, rfl, hskipped⟩ := List.find?_eq_some_iff_append.mp hfit
  obtain ⟨-, hreached, -⟩ := List.pairwise_append.mp hascending
  rcases List.mem_append.mp hcandidate with hbefore | hbehind
  · exact absurd hlarge (by simpa using hskipped candidate hbefore)
  · rcases List.mem_cons.mp hbehind with rfl | hlater
    · exact le_rfl
    · exact ((List.pairwise_cons.mp hreached).1 candidate hlater).le

theorem Ascending.bestFit_eq_some_iff (hascending : Ascending size classes) {fit : Class} :
    bestFit size classes request = some fit ↔ fit ∈ classes ∧ request ≤ size fit ∧
      ∀ candidate ∈ classes, request ≤ size candidate → size fit ≤ size candidate := by
  constructor
  · intro hfit
    obtain ⟨hmem, henough⟩ := bestFit_mem hfit
    exact ⟨hmem, henough, hascending.bestFit_le hfit⟩
  · rintro ⟨hmem, henough, hleast⟩
    cases hfound : bestFit size classes request with
    | none => exact absurd henough (bestFit_eq_none.mp hfound fit hmem).not_ge
    | some found =>
        obtain ⟨hfoundMem, hfoundEnough⟩ := bestFit_mem hfound
        have hle := hleast found hfoundMem hfoundEnough
        have hge := hascending.bestFit_le hfound fit hmem henough
        rw [hascending.ext hfoundMem hmem (le_antisymm hge hle)]

/-! ## Changing one class -/

/-- Exchanging a class for one of the same size that is no less stocked takes
no service away. -/
theorem Serves.replace (hsize : size other = size middle) (hstocked : stocked middle → stocked other)
    (hserves : Serves size stocked (front ++ middle :: back) request) :
    Serves size stocked (front ++ other :: back) request := by
  obtain ⟨fit, hfit, hstock⟩ := hserves
  rw [bestFit_append, bestFit_cons] at hfit
  unfold Serves
  rw [bestFit_append, bestFit_cons, hsize]
  cases hfront : bestFit size front request with
  | some found => exact ⟨fit, by simpa [hfront] using hfit, hstock⟩
  | none =>
      rw [hfront, Option.none_or] at hfit
      by_cases hle : request ≤ size middle
      · rw [if_pos hle] at hfit
        cases hfit
        exact ⟨other, by simp [hle], hstocked hstock⟩
      · rw [if_neg hle] at hfit
        exact ⟨fit, by simp [hle, hfit], hstock⟩

/-- Exchanging a class for one of the same size leaves the best fit as it is,
unless this was the class itself. -/
theorem Ascending.bestFit_exchange (hascending : Ascending size (front ++ middle :: back))
    (hsize : size other = size middle) (request : Size) :
    (bestFit size (front ++ middle :: back) request = some middle ∧
        bestFit size (front ++ other :: back) request = some other) ∨
      (bestFit size (front ++ middle :: back) request ≠ some middle ∧
        bestFit size (front ++ other :: back) request =
          bestFit size (front ++ middle :: back) request) := by
  obtain ⟨-, hback, hcross⟩ := List.pairwise_append.mp hascending
  obtain ⟨hlarger, -⟩ := List.pairwise_cons.mp hback
  rw [bestFit_append, bestFit_append, bestFit_cons, bestFit_cons, hsize]
  cases hfront : bestFit size front request with
  | some found =>
      refine .inr ⟨fun heq => ?_, rfl⟩
      cases heq
      exact (hcross middle (bestFit_mem hfront).1 middle List.mem_cons_self).false
  | none =>
      by_cases hfits : request ≤ size middle
      · exact .inl ⟨by simp [hfits], by simp [hfits]⟩
      · refine .inr ⟨fun heq => ?_, by simp [hfits]⟩
        rw [if_neg hfits, Option.none_or] at heq
        exact (hlarger middle (bestFit_mem heq).1).false

/-- A request of exactly the size of a class is served by that class. -/
theorem serves_exact_iff (hascending : Ascending size (front ++ middle :: back)) :
    Serves size stocked (front ++ middle :: back) (size middle) ↔ stocked middle := by
  unfold Serves
  rw [hascending.bestFit_exact]
  constructor
  · rintro ⟨fit, heq, hstock⟩
    cases heq
    exact hstock
  · exact fun hstock => ⟨middle, rfl, hstock⟩

/-- Where there is no such class the next larger one serves the request. -/
theorem serves_between_iff (hascending : Ascending size (front ++ middle :: back)) :
    Serves size stocked (front ++ back) (size middle) ↔ ∃ next ∈ back.head?, stocked next := by
  obtain ⟨-, hback, hcross⟩ := List.pairwise_append.mp hascending
  obtain ⟨hlarger, -⟩ := List.pairwise_cons.mp hback
  have hnone : bestFit size front (size middle) = none :=
    bestFit_eq_none.mpr fun candidate hcandidate => hcross candidate hcandidate middle
      List.mem_cons_self
  unfold Serves
  rw [bestFit_append, hnone, Option.none_or]
  cases back with
  | nil => simp [bestFit]
  | cons next tail =>
      rw [bestFit_cons, if_pos (hlarger next List.mem_cons_self).le]
      simp

/-- A new class takes no service away when it holds something, or when the
next larger class holds nothing anyway. -/
theorem Serves.insert (hascending : Ascending size (front ++ middle :: back))
    (hcondition : stocked middle ∨ ¬ ∃ next ∈ back.head?, stocked next)
    (hserves : Serves size stocked (front ++ back) request) :
    Serves size stocked (front ++ middle :: back) request := by
  obtain ⟨-, hback, -⟩ := List.pairwise_append.mp hascending
  obtain ⟨hlarger, -⟩ := List.pairwise_cons.mp hback
  obtain ⟨fit, hfit, hstock⟩ := hserves
  unfold Serves
  rw [bestFit_append, bestFit_cons]
  rw [bestFit_append] at hfit
  cases hfront : bestFit size front request with
  | some found => exact ⟨fit, by simpa [hfront] using hfit, hstock⟩
  | none =>
      rw [hfront, Option.none_or] at hfit
      by_cases hle : request ≤ size middle
      · cases back with
        | nil => simp [bestFit] at hfit
        | cons next tail =>
            rw [bestFit_cons, if_pos (hle.trans (hlarger next List.mem_cons_self).le)] at hfit
            cases hfit
            rcases hcondition with hmiddle | hempty
            · exact ⟨middle, by simp [hle], hmiddle⟩
            · exact absurd ⟨_, rfl, hstock⟩ hempty
      · exact ⟨fit, by simp [hle, hfit], hstock⟩

end BestFit

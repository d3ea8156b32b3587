import MicroTbx.Foundation.Sequence
import Mathlib.Order.Defs.Unbundled
import Mathlib.Data.List.Perm.Basic

/-! # Sorting by exchange

Whatever is answered to the comparisons, each pass only exchanges items. When
the answers are those of a strict weak order, a pass brings an item to the
front that is greater than none behind it, and the rounds sort.
-/

namespace Sequence

variable {Item : Type*} {greater : Nat → Item → Item → Bool} {order : Item → Item → Prop}
  {rounds : Nat} {items : List Item}

/-! ## Any answers -/

theorem exchangePass_perm (calls : Nat) (current : Item) (items : List Item) :
    ((exchangePass greater calls current items).1 ::
      (exchangePass greater calls current items).2).Perm (current :: items) := by
  induction items generalizing calls current with
  | nil => exact .refl _
  | cons head tail ih =>
      unfold exchangePass
      split
      · exact (List.Perm.swap ..).trans ((ih (calls + 1) head).cons current)
      · exact ((List.Perm.swap ..).trans ((ih (calls + 1) current).cons head)).trans (.swap ..)

theorem length_exchangePass (calls : Nat) (current : Item) (items : List Item) :
    (exchangePass greater calls current items).2.length = items.length :=
  Nat.succ.inj (exchangePass_perm calls current items).length_eq

theorem exchangeRounds_perm (rounds calls : Nat) (items : List Item) :
    (exchangeRounds greater rounds calls items).Perm items := by
  induction rounds generalizing calls items with
  | zero => exact .refl _
  | succ rounds ih =>
      cases items with
      | nil => exact .refl _
      | cons head tail =>
          rw [exchangeRounds_cons]
          exact ((ih _ _).cons _).trans (exchangePass_perm calls head tail)

theorem exchangeSort_perm (items : List Item) : (exchangeSort greater items).Perm items :=
  exchangeRounds_perm items.length 0 items

/-! ## Answers of a strict weak order -/

section Ordered

variable (hweak : IsStrictWeakOrder Item order)
include hweak

/-- Not being greater is transitive. -/
theorem not_order_trans {first second third : Item} (hfirst : ¬ order first second)
    (hsecond : ¬ order second third) : ¬ order first third := by
  intro hthird
  have hback : ¬ order second first := fun hback => hsecond (hweak.trans _ _ _ hback hthird)
  have hahead : ¬ order third second := fun hahead => hfirst (hweak.trans _ _ _ hthird hahead)
  exact (hweak.incomp_trans first second third ⟨hfirst, hback⟩ ⟨hsecond, hahead⟩).1 hthird

theorem not_order_of_order {first second : Item} (hgreater : order first second) :
    ¬ order second first :=
  fun hback => hweak.irrefl first (hweak.trans _ _ _ hgreater hback)

variable (hgreater : ∀ calls left right, greater calls left right = true ↔ order left right)
include hgreater

/-- The item that a pass ends with is not greater than any that it met. -/
theorem exchangePass_not_order (calls : Nat) (current : Item) (items : List Item) :
    ¬ order (exchangePass greater calls current items).1 current ∧
      ∀ item ∈ items, ¬ order (exchangePass greater calls current items).1 item := by
  induction items generalizing calls current with
  | nil => exact ⟨hweak.irrefl current, fun _ hitem => by cases hitem⟩
  | cons head tail ih =>
      unfold exchangePass
      split
      · next hanswer =>
          obtain ⟨hhead, htail⟩ := ih (calls + 1) head
          have hless := not_order_of_order hweak ((hgreater _ _ _).mp hanswer)
          exact ⟨not_order_trans hweak hhead hless, List.forall_mem_cons.mpr ⟨hhead, htail⟩⟩
      · next hanswer =>
          obtain ⟨hcurrent, htail⟩ := ih (calls + 1) current
          have hnot := mt (hgreater _ _ _).mpr hanswer
          exact ⟨hcurrent,
            List.forall_mem_cons.mpr ⟨not_order_trans hweak hcurrent hnot, htail⟩⟩

theorem exchangeRounds_sorted (calls : Nat) (hrounds : items.length ≤ rounds) :
    (exchangeRounds greater rounds calls items).Pairwise fun left right => ¬ order left right := by
  induction rounds generalizing calls items with
  | zero =>
      rw [List.length_eq_zero_iff.mp (Nat.le_zero.mp hrounds)]
      exact .nil
  | succ rounds ih =>
      cases items with
      | nil => exact .nil
      | cons head tail =>
          rw [exchangeRounds_cons]
          obtain ⟨hhead, htail⟩ := exchangePass_not_order hweak hgreater calls head tail
          have hpass := @exchangePass_perm _ greater calls head tail
          refine List.pairwise_cons.mpr ⟨fun item hitem => ?_, ih _ ?_⟩
          · have hmet := (exchangeRounds_perm rounds _ _).mem_iff.mp hitem
            rcases List.mem_cons.mp (hpass.mem_iff.mp (List.mem_cons_of_mem _ hmet)) with rfl | hmem
            · exact hhead
            · exact htail item hmem
          · rw [length_exchangePass]
            exact Nat.le_of_succ_le_succ hrounds

/-- No item is greater than one behind it. -/
theorem exchangeSort_sorted (items : List Item) :
    (exchangeSort greater items).Pairwise fun left right => ¬ order left right :=
  exchangeRounds_sorted hweak hgreater 0 (Nat.le_refl _)

end Ordered

end Sequence

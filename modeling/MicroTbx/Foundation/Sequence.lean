import Mathlib.Data.List.Basic

/-! # Sequences with a distinguished item

Operations on a sequence that refer to an item of it by its value: they act at
the first place where the item occurs. Each is characterised at a sequence
split around that place, and at a sequence the item does not occur in.
-/

namespace Sequence

variable {Item : Type*} [DecidableEq Item]

/-- A new item in front of the first occurrence of a reference. -/
def insertBefore (item ref : Item) : List Item → List Item
  | [] => []
  | head :: tail =>
      if head = ref then item :: head :: tail else head :: insertBefore item ref tail

/-- A new item behind the first occurrence of a reference. -/
def insertAfter (item ref : Item) : List Item → List Item
  | [] => []
  | head :: tail =>
      if head = ref then head :: item :: tail else head :: insertAfter item ref tail

/-- The item in front of the first occurrence of a reference. -/
def previous (ref : Item) : List Item → Option Item
  | first :: second :: tail =>
      if first = ref then none
      else if second = ref then some first
      else previous ref (second :: tail)
  | _ => none

/-- The item behind the first occurrence of a reference. -/
def next (ref : Item) : List Item → Option Item
  | [] => none
  | head :: tail => if head = ref then tail.head? else next ref tail

/-- The first occurrences of two items are exchanged, if both occur. -/
def swap (first second : Item) (items : List Item) : List Item :=
  if first ∈ items ∧ second ∈ items then
    (items.set (items.idxOf first) second).set (items.idxOf second) first
  else items

section Members

variable {ref item other first second : Item} {items : List Item}

theorem mem_insertBefore (hmem : other ∈ insertBefore item ref items) :
    other = item ∨ other ∈ items := by
  induction items with
  | nil => cases hmem
  | cons head tail ih =>
      unfold insertBefore at hmem
      split at hmem
      · exact List.mem_cons.mp hmem
      · rcases List.mem_cons.mp hmem with rfl | htail
        · exact .inr List.mem_cons_self
        · exact (ih htail).imp_right (List.mem_cons_of_mem _)

theorem mem_insertAfter (hmem : other ∈ insertAfter item ref items) :
    other = item ∨ other ∈ items := by
  induction items with
  | nil => cases hmem
  | cons head tail ih =>
      unfold insertAfter at hmem
      split at hmem
      · rcases List.mem_cons.mp hmem with rfl | hrest
        · exact .inr List.mem_cons_self
        · exact (List.mem_cons.mp hrest).imp_right (List.mem_cons_of_mem _)
      · rcases List.mem_cons.mp hmem with rfl | htail
        · exact .inr List.mem_cons_self
        · exact (ih htail).imp_right (List.mem_cons_of_mem _)

theorem mem_swap (hmem : other ∈ swap first second items) :
    other = first ∨ other = second ∨ other ∈ items := by
  unfold swap at hmem
  split at hmem
  · rcases List.mem_or_eq_of_mem_set hmem with hset | rfl
    · rcases List.mem_or_eq_of_mem_set hset with hitem | rfl
      · exact .inr (.inr hitem)
      · exact .inr (.inl rfl)
    · exact .inl rfl
  · exact .inr (.inr hmem)

end Members

section FirstOccurrence

variable {ref item : Item} {front back items : List Item}

theorem insertBefore_split (hfront : ref ∉ front) :
    insertBefore item ref (front ++ ref :: back) = front ++ item :: ref :: back := by
  induction front with
  | nil => simp [insertBefore]
  | cons head tail ih =>
      rw [List.mem_cons, not_or] at hfront
      simp [insertBefore, Ne.symm hfront.1, ih hfront.2]

theorem insertAfter_split (hfront : ref ∉ front) :
    insertAfter item ref (front ++ ref :: back) = front ++ ref :: item :: back := by
  induction front with
  | nil => simp [insertAfter]
  | cons head tail ih =>
      rw [List.mem_cons, not_or] at hfront
      simp [insertAfter, Ne.symm hfront.1, ih hfront.2]

theorem erase_split (hfront : ref ∉ front) :
    (front ++ ref :: back).erase ref = front ++ back := by
  rw [List.erase_append_right _ hfront, List.erase_cons_head]

theorem next_split (hfront : ref ∉ front) : next ref (front ++ ref :: back) = back.head? := by
  induction front with
  | nil => simp [next]
  | cons head tail ih =>
      rw [List.mem_cons, not_or] at hfront
      simp [next, Ne.symm hfront.1, ih hfront.2]

theorem previous_split (hfront : ref ∉ front) :
    previous ref (front ++ ref :: back) = front.getLast? := by
  induction front with
  | nil => cases back <;> simp [previous]
  | cons head tail ih =>
      rw [List.mem_cons, not_or] at hfront
      cases tail with
      | nil => simp [previous, Ne.symm hfront.1]
      | cons second later =>
          have hsecond : second ≠ ref := fun heq => hfront.2 (heq ▸ List.mem_cons_self)
          rw [List.cons_append] at ih
          simp [previous, Ne.symm hfront.1, hsecond, ih hfront.2]

theorem next_absent (hitems : ref ∉ items) : next ref items = none := by
  induction items with
  | nil => rfl
  | cons head tail ih =>
      rw [List.mem_cons, not_or] at hitems
      simp [next, Ne.symm hitems.1, ih hitems.2]

theorem previous_absent (hitems : ref ∉ items) : previous ref items = none := by
  induction items with
  | nil => rfl
  | cons head tail ih =>
      rw [List.mem_cons, not_or] at hitems
      cases tail with
      | nil => rfl
      | cons second later =>
          have hsecond : second ≠ ref := fun heq => hitems.2 (heq ▸ List.mem_cons_self)
          simp [previous, Ne.symm hitems.1, hsecond, ih hitems.2]

omit [DecidableEq Item] in
theorem not_mem_front (hnodup : (front ++ ref :: back).Nodup) : ref ∉ front :=
  fun hmem => (List.nodup_append.mp hnodup).2.2 ref hmem ref List.mem_cons_self rfl

/-- In a sequence without repetition, one item is behind another where they
stand side by side. -/
theorem next_eq_some_iff (hnodup : items.Nodup) :
    next ref items = some item ↔ ∃ front back, items = front ++ ref :: item :: back := by
  constructor
  · intro hnext
    by_cases hmem : ref ∈ items
    · obtain ⟨front, back, rfl⟩ := List.append_of_mem hmem
      rw [next_split (not_mem_front hnodup)] at hnext
      obtain ⟨later, rfl⟩ := List.head?_eq_some_iff.mp hnext
      exact ⟨front, later, rfl⟩
    · rw [next_absent hmem] at hnext
      cases hnext
  · rintro ⟨front, back, rfl⟩
    rw [next_split (not_mem_front hnodup), List.head?_cons]

theorem previous_eq_some_iff (hnodup : items.Nodup) :
    previous ref items = some item ↔ ∃ front back, items = front ++ item :: ref :: back := by
  constructor
  · intro hprevious
    by_cases hmem : ref ∈ items
    · obtain ⟨front, back, rfl⟩ := List.append_of_mem hmem
      rw [previous_split (not_mem_front hnodup)] at hprevious
      obtain ⟨earlier, rfl⟩ := List.getLast?_eq_some_iff.mp hprevious
      exact ⟨earlier, back, (List.append_cons earlier item (ref :: back)).symm⟩
    · rw [previous_absent hmem] at hprevious
      cases hprevious
  · rintro ⟨front, back, rfl⟩
    rw [List.append_cons] at hnodup ⊢
    rw [previous_split (not_mem_front hnodup), List.getLast?_append]
    rfl

/-- Of two different items of a sequence without repetition, each tells of the
other that they stand side by side. -/
theorem next_iff_previous (hnodup : items.Nodup) :
    next ref items = some item ↔ previous item items = some ref :=
  (next_eq_some_iff hnodup).trans (previous_eq_some_iff hnodup).symm

end FirstOccurrence

/-! ## Sorting by exchange -/

section Exchange

variable (greater : Nat → Item → Item → Bool)

omit [DecidableEq Item]

/-- The current item meets the items behind it one after the other, and is
exchanged with each that it is greater than. The comparisons are numbered. -/
def exchangePass : Nat → Item → List Item → Item × List Item
  | _, current, [] => (current, [])
  | calls, current, head :: tail =>
      if greater calls current head then
        let rest := exchangePass (calls + 1) head tail
        (rest.1, current :: rest.2)
      else
        let rest := exchangePass (calls + 1) current tail
        (rest.1, head :: rest.2)

/-- One pass for each place, from the first to the last. -/
def exchangeRounds : Nat → Nat → List Item → List Item
  | 0, _, items => items
  | _ + 1, _, [] => []
  | rounds + 1, calls, head :: tail =>
      let pass := exchangePass greater calls head tail
      pass.1 :: exchangeRounds rounds (calls + tail.length) pass.2

def exchangeSort (items : List Item) : List Item :=
  exchangeRounds greater items.length 0 items

theorem exchangeRounds_cons (rounds calls : Nat) (head : Item) (tail : List Item) :
    exchangeRounds greater (rounds + 1) calls (head :: tail) =
      (exchangePass greater calls head tail).1 ::
        exchangeRounds greater rounds (calls + tail.length)
          (exchangePass greater calls head tail).2 := rfl

end Exchange

end Sequence

import Mathlib.Data.List.Basic
import Mathlib.Data.List.Nodup

/-! # Accounts of a queue

Contexts offer items to a queue, and one of them takes items from its front.
Offering an item and linking it are different events, and so are obtaining the
item in front and removing it. The account keeps the events, and is sound when
the items in the queue are those that were linked and not removed, and what
was obtained is what was linked first.
-/

/-- What has happened to a queue. -/
structure QueueTally (Context Item : Type) where
  offered : List (Context × Item)
  linked : List Item
  accepted : List Item
  rejected : List Item
  obtained : List Item
  removed : Nat
  /-- The item that was obtained last, before the removal is asked for. -/
  pending : Option Item

namespace QueueTally

variable {Context Item : Type}

def empty : QueueTally Context Item := ⟨[], [], [], [], [], 0, none⟩

section Events

variable (tally : QueueTally Context Item) (context : Context) (item : Item)

def offer : QueueTally Context Item := { tally with offered := (context, item) :: tally.offered }

def link : QueueTally Context Item := { tally with linked := tally.linked ++ [item] }

def accept : QueueTally Context Item := { tally with accepted := item :: tally.accepted }

def reject : QueueTally Context Item := { tally with rejected := item :: tally.rejected }

/-- The item in front is given to the context that takes items. -/
def obtainFront : QueueTally Context Item :=
  { tally with obtained := tally.obtained ++ [item], pending := some item }

/-- The context that takes items begins its next request. -/
def ask : QueueTally Context Item := { tally with pending := none }

def removeFront : QueueTally Context Item := { tally with removed := tally.removed + 1 }

end Events

/-- The account agrees with the items in the queue. -/
structure Sound (tally : QueueTally Context Item) (items : List Item) : Prop where
  offered_nodup : (tally.offered.map Prod.snd).Nodup
  linked_nodup : tally.linked.Nodup
  linked_offered : ∀ item ∈ tally.linked, item ∈ tally.offered.map Prod.snd
  rejected_offered : ∀ item ∈ tally.rejected, item ∈ tally.offered.map Prod.snd
  accepted_linked : ∀ item ∈ tally.accepted, item ∈ tally.linked
  rejected_not_linked : ∀ item ∈ tally.rejected, item ∉ tally.linked
  obtained_prefix : tally.obtained <+: tally.linked
  waiting : items = tally.linked.drop tally.removed
  removed_le : tally.removed ≤ tally.obtained.length
  obtained_le : tally.obtained.length ≤ tally.removed + 1

/-- What one context sees when others make moves: its own items are left
alone, items are linked behind those that are there, and only the context that
takes items does so. -/
structure Onward (consumer context : Context) (tally next : QueueTally Context Item) : Prop where
  linked : tally.linked <+: next.linked
  offered : ∀ item, (context, item) ∈ tally.offered → (context, item) ∈ next.offered
  ownLinked : ∀ item, (context, item) ∈ tally.offered → (item ∈ next.linked ↔ item ∈ tally.linked)
  ownRejected : ∀ item, (context, item) ∈ tally.offered →
    (item ∈ next.rejected ↔ item ∈ tally.rejected)
  taken : context = consumer → next.obtained = tally.obtained ∧ next.removed = tally.removed ∧
    next.pending = tally.pending

variable {tally next : QueueTally Context Item} {items : List Item} {item : Item}
  {consumer context other : Context}

/-! ## Sound accounts -/

namespace Sound

theorem empty : (empty : QueueTally Context Item).Sound [] where
  offered_nodup := List.nodup_nil
  linked_nodup := List.nodup_nil
  linked_offered := fun _ hitem => hitem
  rejected_offered := fun _ hitem => hitem
  accepted_linked := fun _ hitem => hitem
  rejected_not_linked := fun _ hitem => absurd hitem List.not_mem_nil
  obtained_prefix := List.prefix_rfl
  waiting := rfl
  removed_le := Nat.le_refl _
  obtained_le := Nat.zero_le _

variable (hsound : tally.Sound items)
include hsound

theorem removed_le_linked : tally.removed ≤ tally.linked.length :=
  Nat.le_trans hsound.removed_le hsound.obtained_prefix.length_le

/-- The item in front of the queue is the one that was linked after those
removed. -/
theorem head?_eq : items.head? = tally.linked[tally.removed]? := by
  rw [hsound.waiting, List.head?_drop]

theorem offer (context : Context) (hfresh : item ∉ tally.offered.map Prod.snd) :
    (tally.offer context item).Sound items :=
  { hsound with
    offered_nodup := List.nodup_cons.mpr ⟨hfresh, hsound.offered_nodup⟩
    linked_offered := fun other hother =>
      List.mem_cons_of_mem _ (hsound.linked_offered other hother)
    rejected_offered := fun other hother =>
      List.mem_cons_of_mem _ (hsound.rejected_offered other hother) }

theorem link (hoffered : (context, item) ∈ tally.offered) (hlinked : item ∉ tally.linked)
    (hrejected : item ∉ tally.rejected) : (tally.link item).Sound (items ++ [item]) :=
  { hsound with
    linked_nodup := by
      rw [QueueTally.link, ← List.concat_eq_append]
      exact hsound.linked_nodup.concat hlinked
    linked_offered := by
      intro other hother
      rcases List.mem_append.mp hother with hearlier | hnew
      · exact hsound.linked_offered other hearlier
      · obtain rfl := List.mem_singleton.mp hnew
        exact List.mem_map.mpr ⟨_, hoffered, rfl⟩
    accepted_linked := fun other hother =>
      List.mem_append_left _ (hsound.accepted_linked other hother)
    rejected_not_linked := by
      intro other hother hmem
      rcases List.mem_append.mp hmem with hearlier | hnew
      · exact hsound.rejected_not_linked other hother hearlier
      · exact hrejected (List.mem_singleton.mp hnew ▸ hother)
    obtained_prefix := hsound.obtained_prefix.trans (List.prefix_append _ _)
    waiting := by
      rw [hsound.waiting]
      exact (List.drop_append_of_le_length hsound.removed_le_linked).symm }

theorem accept (hlinked : item ∈ tally.linked) : (tally.accept item).Sound items :=
  { hsound with accepted_linked := List.forall_mem_cons.mpr ⟨hlinked, hsound.accepted_linked⟩ }

theorem reject (hoffered : (context, item) ∈ tally.offered) (hlinked : item ∉ tally.linked) :
    (tally.reject item).Sound items :=
  { hsound with
    rejected_offered :=
      List.forall_mem_cons.mpr ⟨List.mem_map.mpr ⟨_, hoffered, rfl⟩, hsound.rejected_offered⟩
    rejected_not_linked := List.forall_mem_cons.mpr ⟨hlinked, hsound.rejected_not_linked⟩ }

theorem obtainFront (hlength : tally.obtained.length = tally.removed)
    (hfront : tally.linked[tally.removed]? = some item) : (tally.obtainFront item).Sound items :=
  { hsound with
    obtained_prefix := by
      have htake : tally.obtained = tally.linked.take tally.removed := by
        rw [← hlength]
        exact List.prefix_iff_eq_take.mp hsound.obtained_prefix
      have hnext : tally.obtained ++ [item] = tally.linked.take (tally.removed + 1) := by
        rw [List.take_add_one, hfront, ← htake]
        rfl
      rw [QueueTally.obtainFront, hnext]
      exact List.take_prefix _ _
    removed_le := by
      rw [QueueTally.obtainFront, List.length_append, hlength]
      exact Nat.le_add_right _ _
    obtained_le := by
      rw [QueueTally.obtainFront, List.length_append, hlength]
      exact Nat.le_refl _ }

theorem ask : tally.ask.Sound items := { hsound with }

theorem removeFront (hlength : tally.obtained.length = tally.removed + 1) :
    tally.removeFront.Sound items.tail :=
  { hsound with
    waiting := by
      rw [hsound.waiting, List.tail_drop]
      rfl
    removed_le := Nat.le_of_eq hlength.symm
    obtained_le := Nat.le_succ_of_le (Nat.le_of_eq hlength) }

/-- An item was offered by one context only. -/
theorem offered_unique (hoffered : (context, item) ∈ tally.offered)
    (hother : (other, item) ∈ tally.offered) : other = context :=
  congrArg Prod.fst (List.inj_on_of_nodup_map hsound.offered_nodup hother hoffered rfl)

end Sound

/-! ## Moves of others -/

namespace Onward

theorem refl (consumer context : Context) (tally : QueueTally Context Item) :
    tally.Onward consumer context tally :=
  ⟨List.prefix_rfl, fun _ hown => hown, fun _ _ => Iff.rfl, fun _ _ => Iff.rfl,
    fun _ => ⟨rfl, rfl, rfl⟩⟩

theorem offer (mover : Context) : tally.Onward consumer context (tally.offer mover item) :=
  { refl consumer context tally with offered := fun _ hown => List.mem_cons_of_mem _ hown }

theorem accept : tally.Onward consumer context (tally.accept item) :=
  { refl consumer context tally with }

/-- The account as seen by a context that did not offer the item. -/
theorem link (hsound : tally.Sound items) (hoffered : (other, item) ∈ tally.offered)
    (hother : context ≠ other) : tally.Onward consumer context (tally.link item) :=
  { refl consumer context tally with
    linked := List.prefix_append _ _
    ownLinked := by
      intro own hown
      refine List.mem_append.trans (or_iff_left fun hnew => hother ?_)
      exact hsound.offered_unique hoffered (List.mem_singleton.mp hnew ▸ hown) }

theorem reject (hsound : tally.Sound items) (hoffered : (other, item) ∈ tally.offered)
    (hother : context ≠ other) : tally.Onward consumer context (tally.reject item) :=
  { refl consumer context tally with
    ownRejected := by
      intro own hown
      refine List.mem_cons.trans (or_iff_right fun hnew => hother ?_)
      exact hsound.offered_unique hoffered (hnew ▸ hown) }

/-- What the context that takes items does matters to no other. -/
theorem obtainFront (hother : context ≠ consumer) :
    tally.Onward consumer context (tally.obtainFront item) :=
  { refl consumer context tally with taken := fun heq => absurd heq hother }

theorem ask (hother : context ≠ consumer) : tally.Onward consumer context tally.ask :=
  { refl consumer context tally with taken := fun heq => absurd heq hother }

theorem removeFront (hother : context ≠ consumer) :
    tally.Onward consumer context tally.removeFront :=
  { refl consumer context tally with taken := fun heq => absurd heq hother }

/-- The next item to be removed stays the same. -/
theorem next_eq (honward : tally.Onward consumer consumer next)
    (hitem : tally.linked[tally.removed]? = some item) :
    next.linked[next.removed]? = some item := by
  obtain ⟨later, hlinked⟩ := honward.linked
  rw [(honward.taken rfl).2.1, ← hlinked]
  obtain ⟨hlt, -⟩ := List.getElem?_eq_some_iff.mp hitem
  rw [List.getElem?_append_left hlt]
  exact hitem

end Onward

end QueueTally

import Mathlib.Data.List.Nodup
import Mathlib.Order.Lattice
import Mathlib.Logic.Function.Basic
import Mathlib.Tactic.Basic

/-! # Stores of objects

What dynamic memory is for, told without any memory: objects are made, written,
read and dropped. A history of such events determines which objects there are
and what their user has written to them. It is legal when objects that exist
together are apart and every read yields what was written last.
-/

/-- An object as its user knows it. -/
structure StoredObject (Value : Type) where
  pointer : Nat
  size : Nat
  /-- What was written last at an index, if anything was. -/
  contents : Nat → Option Value

/-- What a user does with a store. Histories have the newest event first. -/
inductive StoreEvent (Value : Type)
  | made (size pointer : Nat)
  | dropped (pointer : Nat)
  | wrote (pointer index : Nat) (value : Value)
  | read (pointer index : Nat) (value : Value)
  | idle

namespace StoredObject

variable {Value : Type}

/-- The objects have no byte in common. -/
def Apart (object other : StoredObject Value) : Prop :=
  object.pointer + object.size ≤ other.pointer ∨ other.pointer + other.size ≤ object.pointer

/-- An object of which nothing was written yet. -/
def fresh (size pointer : Nat) : StoredObject Value := ⟨pointer, size, fun _ => none⟩

def put (pointer index : Nat) (value : Value) (object : StoredObject Value) : StoredObject Value :=
  if object.pointer = pointer then
    { object with contents := Function.update object.contents index (some value) }
  else object

variable {object other : StoredObject Value} {pointer index : Nat} {value : Value}

@[simp] theorem fresh_pointer (size pointer : Nat) :
    (fresh size pointer : StoredObject Value).pointer = pointer := rfl

@[simp] theorem fresh_size (size pointer : Nat) :
    (fresh size pointer : StoredObject Value).size = size := rfl

@[simp] theorem put_pointer : (put pointer index value object).pointer = object.pointer := by
  unfold put
  split <;> rfl

@[simp] theorem put_size : (put pointer index value object).size = object.size := by
  unfold put
  split <;> rfl

theorem put_contents_self (hpointer : object.pointer = pointer) :
    (put pointer index value object).contents index = some value := by
  rw [put, if_pos hpointer]
  exact Function.update_self ..

theorem put_contents_of_ne {place : Nat} (hother : object.pointer = pointer → place ≠ index) :
    (put pointer index value object).contents place = object.contents place := by
  unfold put
  split
  · next hpointer => exact Function.update_of_ne (hother hpointer) _ _
  · rfl

theorem Apart.symm (hapart : object.Apart other) : other.Apart object := Or.symm hapart

theorem Apart.put (hapart : object.Apart other) :
    (put pointer index value object).Apart (put pointer index value other) := by
  unfold Apart at hapart ⊢
  simpa using hapart

/-- Objects that are apart are at different places, unless one is empty. -/
theorem Apart.pointer_ne (hapart : object.Apart other) (hobject : 0 < object.size)
    (hother : 0 < other.size) : object.pointer ≠ other.pointer := by
  unfold Apart at hapart
  omega

end StoredObject

namespace ObjectStore

variable {Value : Type}

/-- What an event does to the objects. -/
def step (objects : List (StoredObject Value)) : StoreEvent Value → List (StoredObject Value)
  | .made size pointer => .fresh size pointer :: objects
  | .dropped pointer => objects.filter (·.pointer ≠ pointer)
  | .wrote pointer index value => objects.map (.put pointer index value)
  | .read _ _ _ | .idle => objects

/-- The objects there are after a history. -/
def objects : List (StoreEvent Value) → List (StoredObject Value)
  | [] => []
  | event :: earlier => step (objects earlier) event

/-- What the user and the store may do while there are these objects. -/
def Permits (objects : List (StoredObject Value)) : StoreEvent Value → Prop
  | .made size pointer => 0 < size ∧ ∀ object ∈ objects, object.Apart (.fresh size pointer)
  | .dropped pointer | .wrote pointer _ _ => ∃ object ∈ objects, object.pointer = pointer
  | .read pointer index value => ∃ object ∈ objects, object.pointer = pointer ∧
      ∀ known ∈ object.contents index, value = known
  | .idle => True

/-- Every event of the history was permitted when it happened. -/
def Legal : List (StoreEvent Value) → Prop
  | [] => True
  | event :: earlier => Permits (objects earlier) event ∧ Legal earlier

/-- The event may change what is known of a place. -/
def Changes (pointer index : Nat) : StoreEvent Value → Prop
  | .dropped other => other = pointer
  | .wrote other place _ => other = pointer ∧ place = index
  | _ => False

variable {events between earlier : List (StoreEvent Value)} {object : StoredObject Value}
  {pointer index size : Nat} {value written : Value}

theorem mem_step_wrote (hobject : object ∈ step (objects events) (.wrote pointer index value)) :
    ∃ old ∈ objects events, object = .put pointer index value old := by
  obtain ⟨old, hold, rfl⟩ := List.mem_map.mp hobject
  exact ⟨old, hold, rfl⟩

namespace Legal

/-- What happened earlier was legal, too. -/
theorem of_append (hlegal : Legal (between ++ earlier)) : Legal earlier := by
  induction between with
  | nil => exact hlegal
  | cons event between ih => exact ih hlegal.2

theorem size_pos (hlegal : Legal events) : ∀ object ∈ objects events, 0 < object.size := by
  induction events with
  | nil => simp [objects]
  | cons event earlier ih =>
      obtain ⟨hpermits, hearlier⟩ := hlegal
      intro object hobject
      cases event with
      | made size pointer =>
          rcases List.mem_cons.mp hobject with rfl | hold
          · exact hpermits.1
          · exact ih hearlier object hold
      | dropped pointer => exact ih hearlier object (List.mem_filter.mp hobject).1
      | wrote pointer index value =>
          obtain ⟨old, hold, rfl⟩ := mem_step_wrote hobject
          rw [StoredObject.put_size]
          exact ih hearlier old hold
      | read pointer index value => exact ih hearlier object hobject
      | idle => exact ih hearlier object hobject

/-- Objects that exist together are apart. -/
theorem apart (hlegal : Legal events) : (objects events).Pairwise StoredObject.Apart := by
  induction events with
  | nil => exact List.Pairwise.nil
  | cons event earlier ih =>
      obtain ⟨hpermits, hearlier⟩ := hlegal
      cases event with
      | made size pointer =>
          exact List.pairwise_cons.mpr ⟨fun object hobject => (hpermits.2 object hobject).symm,
            ih hearlier⟩
      | dropped pointer => exact (ih hearlier).filter _
      | wrote pointer index value =>
          exact (ih hearlier).map _ fun _ _ hapart => hapart.put
      | read pointer index value => exact ih hearlier
      | idle => exact ih hearlier

theorem pointer_nodup (hlegal : Legal events) :
    ((objects events).map StoredObject.pointer).Nodup := by
  apply List.pairwise_map.mpr
  apply hlegal.apart.imp_of_mem
  intro object other hobject hother hapart
  exact hapart.pointer_ne (hlegal.size_pos object hobject) (hlegal.size_pos other hother)

/-- What was written stays known until the place is written again or the
object is dropped. -/
theorem known (hlegal : Legal (between ++ .wrote pointer index written :: earlier))
    (hbetween : ∀ event ∈ between, ¬ Changes pointer index event) :
    ∃ object ∈ objects (between ++ .wrote pointer index written :: earlier),
      object.pointer = pointer ∧ object.contents index = some written := by
  induction between with
  | nil =>
      obtain ⟨⟨object, hobject, rfl⟩, -⟩ := hlegal
      exact ⟨_, List.mem_map_of_mem hobject, StoredObject.put_pointer,
        StoredObject.put_contents_self rfl⟩
  | cons event between ih =>
      obtain ⟨hpermits, hlegal⟩ := hlegal
      obtain ⟨hevent, hbetween⟩ := List.forall_mem_cons.mp hbetween
      obtain ⟨object, hobject, rfl, hknown⟩ := ih hlegal hbetween
      cases event with
      | made size other => exact ⟨object, List.mem_cons_of_mem _ hobject, rfl, hknown⟩
      | dropped other =>
          have hkept : decide (object.pointer ≠ other) = true :=
            decide_eq_true fun heq => hevent heq.symm
          exact ⟨object, List.mem_filter.mpr ⟨hobject, hkept⟩, rfl, hknown⟩
      | wrote other place value =>
          refine ⟨_, List.mem_map_of_mem hobject, StoredObject.put_pointer, ?_⟩
          rw [StoredObject.put_contents_of_ne fun hsame heq => hevent ⟨hsame.symm, heq.symm⟩]
          exact hknown
      | read other place value => exact ⟨object, hobject, rfl, hknown⟩
      | idle => exact ⟨object, hobject, rfl, hknown⟩

/-- A read yields what was written last to the same place of the same object,
whatever was done with other places and objects in between. -/
theorem read_back
    (hlegal : Legal (.read pointer index value :: (between ++ .wrote pointer index written :: earlier)))
    (hbetween : ∀ event ∈ between, ¬ Changes pointer index event) : value = written := by
  obtain ⟨⟨object, hobject, rfl, hread⟩, hlegal⟩ := hlegal
  obtain ⟨other, hother, hpointer, hknown⟩ := hlegal.known hbetween
  have hsame : other = object :=
    List.inj_on_of_nodup_map hlegal.pointer_nodup hother hobject hpointer
  subst hsame
  exact hread written hknown

end Legal

/-! ## What users know of a store

Events take effect in a store before or after its users are told of them. In
between the users know of other objects than the store holds, and not of all
contents.
-/

/-- What an object is at one place. -/
def SameAt (index : Nat) (object other : StoredObject Value) : Prop :=
  other.pointer = object.pointer ∧ other.size = object.size ∧
    other.contents index = object.contents index

/-- The place of an object is kept from one store to the other. -/
def KeepsAt (place : Nat × Nat) (store after : List (StoredObject Value)) : Prop :=
  ∀ object ∈ store, object.pointer = place.1 → ∃ other ∈ after, SameAt place.2 object other

/-- All that users know of is in the store, but for the contents of unsettled
places. -/
def Covers (unsettled : Nat × Nat → Prop) (known store : List (StoredObject Value)) : Prop :=
  ∀ object ∈ known, ∃ twin ∈ store, twin.pointer = object.pointer ∧ twin.size = object.size ∧
    ∀ index value, object.contents index = some value →
      twin.contents index = some value ∨ unsettled (object.pointer, index)

section Knowledge

variable {known store after : List (StoredObject Value)} {event : StoreEvent Value}
  {unsettled fewer : Nat × Nat → Prop} {place : Nat × Nat}

theorem KeepsAt.refl : KeepsAt place store store :=
  fun object hobject _ => ⟨object, hobject, rfl, rfl, rfl⟩

/-- An event keeps the places that it does not change. -/
theorem keepsAt_step (hchanges : ¬ Changes place.1 place.2 event) :
    KeepsAt place store (step store event) := by
  rintro object hobject hpointer
  cases event with
  | made size pointer => exact ⟨object, List.mem_cons_of_mem _ hobject, rfl, rfl, rfl⟩
  | dropped pointer =>
      have hkept : object.pointer ≠ pointer := fun heq => hchanges (heq.symm.trans hpointer)
      exact ⟨object, List.mem_filter.mpr ⟨hobject, decide_eq_true hkept⟩, rfl, rfl, rfl⟩
  | wrote pointer index value =>
      refine ⟨_, List.mem_map_of_mem hobject, StoredObject.put_pointer, StoredObject.put_size, ?_⟩
      apply StoredObject.put_contents_of_ne
      exact fun hsame heq => hchanges ⟨hsame.symm.trans hpointer, heq.symm⟩
  | read pointer index value => exact ⟨object, hobject, rfl, rfl, rfl⟩
  | idle => exact ⟨object, hobject, rfl, rfl, rfl⟩

namespace Covers

theorem mono (hcovers : Covers unsettled known store)
    (hunsettled : ∀ place, unsettled place → fewer place) : Covers fewer known store := by
  intro object hobject
  obtain ⟨twin, htwin, hpointer, hsize, hcontents⟩ := hcovers object hobject
  exact ⟨twin, htwin, hpointer, hsize,
    fun index value hvalue => (hcontents index value hvalue).imp_right (hunsettled _)⟩

theorem mem_pointers {pointer : Nat} (hcovers : Covers unsettled known store)
    (hpointer : pointer ∈ known.map StoredObject.pointer) :
    pointer ∈ store.map StoredObject.pointer := by
  obtain ⟨object, hobject, rfl⟩ := List.mem_map.mp hpointer
  obtain ⟨twin, htwin, hpointer, -⟩ := hcovers object hobject
  exact List.mem_map.mpr ⟨twin, htwin, hpointer⟩

/-- Something takes effect in the store. -/
theorem effect (hcovers : Covers unsettled known store)
    (hdropped : ∀ pointer, event = .dropped pointer → pointer ∉ known.map StoredObject.pointer)
    (hwrote : ∀ pointer index value, event = .wrote pointer index value →
      unsettled (pointer, index)) : Covers unsettled known (step store event) := by
  intro object hobject
  obtain ⟨twin, htwin, hpointer, hsize, hcontents⟩ := hcovers object hobject
  cases event with
  | made size pointer => exact ⟨twin, List.mem_cons_of_mem _ htwin, hpointer, hsize, hcontents⟩
  | dropped pointer =>
      have hkept : twin.pointer ≠ pointer := by
        rw [hpointer]
        exact fun heq => hdropped pointer rfl (heq ▸ List.mem_map_of_mem hobject)
      exact ⟨twin, List.mem_filter.mpr ⟨htwin, decide_eq_true hkept⟩, hpointer, hsize, hcontents⟩
  | wrote pointer index value =>
      refine ⟨_, List.mem_map_of_mem htwin, StoredObject.put_pointer.trans hpointer,
        StoredObject.put_size.trans hsize, fun place written hvalue => ?_⟩
      by_cases hplace : twin.pointer = pointer ∧ place = index
      · obtain ⟨rfl, rfl⟩ := hplace
        exact .inr (hpointer ▸ hwrote _ _ _ rfl)
      · rw [StoredObject.put_contents_of_ne fun hsame heq => hplace ⟨hsame, heq⟩]
        exact hcontents place written hvalue
  | read pointer index value => exact ⟨twin, htwin, hpointer, hsize, hcontents⟩
  | idle => exact ⟨twin, htwin, hpointer, hsize, hcontents⟩

/-- Users are told of a new object. -/
theorem made {size pointer : Nat} (hcovers : Covers unsettled known store)
    (hstore : .fresh size pointer ∈ store) :
    Covers unsettled (step known (.made size pointer)) store := by
  intro object hobject
  rcases List.mem_cons.mp hobject with rfl | hold
  · exact ⟨_, hstore, rfl, rfl, fun _ _ hvalue => by cases hvalue⟩
  · exact hcovers object hold

/-- Users give up an object. -/
theorem dropped {pointer : Nat} (hcovers : Covers unsettled known store) :
    Covers unsettled (step known (.dropped pointer)) store :=
  fun object hobject => hcovers object (List.mem_filter.mp hobject).1

/-- Users are told that a place was written, which is settled by that. -/
theorem wrote {pointer index : Nat} {value : Value} (hcovers : Covers unsettled known store)
    (hdistinct : (store.map StoredObject.pointer).Nodup)
    (hstore : ∃ twin ∈ store, twin.pointer = pointer ∧ twin.contents index = some value)
    (hunsettled : ∀ place, unsettled place → fewer place ∨ place = (pointer, index)) :
    Covers fewer (step known (.wrote pointer index value)) store := by
  intro changed hchanged
  obtain ⟨object, hobject, rfl⟩ := List.mem_map.mp hchanged
  obtain ⟨twin, htwin, hpointer, hsize, hcontents⟩ := hcovers object hobject
  refine ⟨twin, htwin, hpointer.trans StoredObject.put_pointer.symm,
    hsize.trans StoredObject.put_size.symm, fun place written hvalue => ?_⟩
  rw [StoredObject.put_pointer]
  by_cases hplace : object.pointer = pointer ∧ place = index
  · obtain ⟨hsame, rfl⟩ := hplace
    rw [StoredObject.put_contents_self hsame] at hvalue
    cases hvalue
    obtain ⟨other, hother, heq, hother'⟩ := hstore
    have hsame' : other = twin :=
      List.inj_on_of_nodup_map hdistinct hother htwin (heq.trans (hpointer.trans hsame).symm)
    exact .inl (hsame' ▸ hother')
  · rw [StoredObject.put_contents_of_ne fun hsame heq => hplace ⟨hsame, heq⟩] at hvalue
    refine (hcontents place written hvalue).imp_right fun hopen => (hunsettled _ hopen).resolve_right ?_
    exact fun heq => hplace (Prod.mk.inj heq)

end Covers

end Knowledge

/-! ## What a store is asked for -/

/-- How many of the objects have a size. -/
def count (size : Nat) (objects : List (StoredObject Value)) : Nat :=
  objects.countP (·.size = size)

/-- The most objects of a size that there were at one time. -/
def peak (size : Nat) : List (StoreEvent Value) → Nat
  | [] => 0
  | event :: earlier => max (count size (objects (event :: earlier))) (peak size earlier)

/-- The sizes of which there was an object, each once. -/
def sizes : List (StoreEvent Value) → List Nat
  | [] => []
  | .made size _ :: earlier => (sizes earlier).insert size
  | _ :: earlier => sizes earlier

variable {store : List (StoredObject Value)} {event : StoreEvent Value}

theorem count_made (other : Nat) : count other (step store (.made size pointer)) =
    count other store + if size = other then 1 else 0 := by
  by_cases hsame : size = other <;> simp [count, step, hsame]

theorem count_wrote : count size (step store (.wrote pointer index value)) = count size store := by
  simp [count, step, List.countP_map, Function.comp_def]

theorem count_dropped (hdistinct : (store.map StoredObject.pointer).Nodup) (hobject : object ∈ store)
    (other : Nat) : count other (step store (.dropped object.pointer)) +
      (if object.size = other then 1 else 0) = count other store := by
  obtain ⟨front, back, rfl⟩ := List.append_of_mem hobject
  rw [List.map_append, List.map_cons, List.nodup_middle, List.nodup_cons, ← List.map_append]
    at hdistinct
  have hothers : ∀ other ∈ front ++ back, decide (other.pointer ≠ object.pointer) = true :=
    fun other hother => decide_eq_true fun heq => hdistinct.1 (heq ▸ List.mem_map_of_mem hother)
  have hfront := List.filter_eq_self.mpr fun other hother =>
    hothers other (List.mem_append_left back hother)
  have hback := List.filter_eq_self.mpr fun other hother =>
    hothers other (List.mem_append_right front hother)
  have hstep : step (front ++ object :: back) (.dropped object.pointer) = front ++ back := by
    rw [step, List.filter_append, List.filter_cons_of_neg (by simp), hfront, hback]
  rw [hstep]
  simp only [count, List.countP_append, List.countP_cons, decide_eq_true_eq]
  omega

/-- Only a new object adds to those of its size. -/
theorem count_step_le (hevent : ∀ pointer, event ≠ .made size pointer) :
    count size (step store event) ≤ count size store := by
  cases event with
  | made other pointer =>
      have hne : other ≠ size := fun heq => hevent pointer (heq ▸ rfl)
      rw [count_made, if_neg hne]
      exact Nat.le_refl _
  | dropped pointer => exact List.filter_sublist.countP_le
  | wrote pointer index value => exact count_wrote.le
  | read pointer index value => exact Nat.le_refl _
  | idle => exact Nat.le_refl _

theorem count_le_peak : count size (objects events) ≤ peak size events := by
  cases events with
  | nil => exact Nat.le_refl _
  | cons event earlier => exact Nat.le_max_left ..

theorem peak_cons_eq (hevent : ∀ pointer, event ≠ .made size pointer) :
    peak size (event :: earlier) = peak size earlier :=
  max_eq_right ((count_step_le hevent).trans count_le_peak)

theorem peak_made : peak size (.made size pointer :: earlier) =
    max (count size (objects earlier) + 1) (peak size earlier) := by
  rw [peak, objects, count_made, if_pos rfl]

theorem sizes_nodup : (sizes events).Nodup := by
  induction events with
  | nil => exact List.nodup_nil
  | cons event earlier ih =>
      cases event with
      | made size pointer => exact ih.insert
      | _ => exact ih

theorem sizes_cons_eq (hevent : ∀ size pointer, event ≠ .made size pointer) :
    sizes (event :: earlier) = sizes earlier := by
  cases event with
  | made size pointer => exact absurd rfl (hevent size pointer)
  | _ => rfl

theorem peak_eq_zero (hsize : size ∉ sizes events) : peak size events = 0 := by
  induction events with
  | nil => rfl
  | cons event earlier ih =>
      cases event with
      | made other pointer =>
          rw [sizes, List.mem_insert_iff, not_or] at hsize
          rw [peak_cons_eq fun _ heq => hsize.1 (StoreEvent.made.inj heq).1.symm]
          exact ih hsize.2
      | _ =>
          rw [peak_cons_eq fun _ heq => by cases heq]
          exact ih hsize

end ObjectStore

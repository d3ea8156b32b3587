import MicroTbx.Foundation.ObjectStore
import MicroTbx.MemPool.Conservation

/-! # Objects in blocks

A user of dynamic memory keeps its objects in blocks that the pools handed out.
Objects in different blocks are apart, whatever their sizes, and no call of the
module touches an object that it is not given: the pools implement a store of
objects.
-/

namespace MicroTbx

open Program

section Statement

variable (target : Target)

/-- A block holds the object, and memory its contents. -/
structure Stored (owner : Ownership) (mem : Nat → Nat) (object : StoredObject Nat) : Prop where
  positive : 0 < object.size
  block : ∃ blockSize block, object.pointer = target.field block 1 ∧ object.size ≤ blockSize ∧
    ∀ index, index * target.word < blockSize →
      owner (target.field object.pointer index) = some (blockSize, .data block index)
  contents : ∀ index value, object.contents index = some value →
    index * target.word < object.size ∧ mem (target.field object.pointer index) = value

/-- Blocks that are handed out hold the objects, each its own. -/
structure ObjectsAt (owner : Ownership) (views : List PoolView)
    (objects : List (StoredObject Nat)) (state : State) : Prop where
  pools : PoolsAt target owner views state
  stored : ∀ object ∈ objects, Stored target owner state.mem object
  out : ∀ object ∈ objects, object.pointer ∈ handedOut state.log
  distinct : (objects.map StoredObject.pointer).Nodup

/-- Where an object lies. -/
structure InHeap (state : State) (object : StoredObject Nat) : Prop where
  ne_null : object.pointer ≠ null
  aligned : target.word ∣ object.pointer - target.heapBase
  above : target.heapBase ≤ object.pointer
  below : object.pointer + object.size ≤ target.heapBase + state.tbxHeapAllocated
  contents : ∀ index value, object.contents index = some value →
    state.mem (target.field object.pointer index) = value

/-- The words that a call of the application writes. -/
def PoolCall.written : PoolCall → List Nat
  | .write memPtr index _ => [target.field memPtr index]
  | _ => []

/-- The call is for none of the blocks. -/
def PoolCall.Spares (pointers : List Nat) : PoolCall → Prop
  | .release memPtr | .write memPtr _ _ => memPtr ∉ pointers
  | _ => True

instance (pointers : List Nat) (call : PoolCall) : Decidable (call.Spares pointers) :=
  match call with
  | .release _ | .write _ _ _ => inferInstanceAs (Decidable (_ ∉ _))
  | .create _ _ | .allocate _ | .allocateAuto _ | .heapAllocate _ => inferInstanceAs (Decidable True)

end Statement

variable {target : Target} {owner larger : Ownership} {views others front back : List PoolView}
  {view : PoolView} {state after : State} {call : PoolCall} {reply : PoolReply}
  {objects : List (StoredObject Nat)} {object other : StoredObject Nat}
  {size data node block index value : Nat} {spare : List Nat}

/-! ## What a call leaves alone -/

theorem PoolsAt.giveBack_kept (hpools : PoolsAt target owner (front ++ view :: back) state)
    (hused : view.used = node :: spare) :
    Kept owner owner state (state.giveBackBlock target view node block) where
  owners := fun _ _ howner => howner
  data := by
    intro address size part howner hpart
    have hnode : node ∈ view.nodes := PoolView.mem_nodes_of_used (hused ▸ List.mem_cons_self)
    exact (hpools.heap.placed view mem_middle).giveBackBlock_mem hnode howner (.inr hpart.not_list)
  events := fun event hevent => List.mem_cons_of_mem _ hevent

theorem Kept.rejected (site : Site) : Kept owner owner state (state.rejected site) :=
  ⟨fun _ _ howner => howner, fun _ _ _ _ _ => rfl, fun _ hevent => List.mem_cons_of_mem _ hevent⟩

/-- The data of a block changes only where the application writes it. -/
theorem PoolStep.keepsData (hstep : PoolStep target owner views state call reply larger others after)
    (hpools : PoolsAt target owner views state) :
    (∀ address part, owner address = some part → larger address = some part) ∧
      ∀ address size part, owner address = some (size, part) → part.IsData →
        address ∉ call.written target → after.mem address = state.mem address := by
  have hkept : ∀ {larger : Ownership} {after : State}, Kept owner larger state after →
      (∀ address part, owner address = some part → larger address = some part) ∧
        ∀ address size part, owner address = some (size, part) → part.IsData →
          address ∉ call.written target → after.mem address = state.mem address :=
    fun hkept => ⟨hkept.owners, fun address size part howner hpart _ =>
      hkept.data address size part howner hpart⟩
  cases hstep with
  | createInvalid invalid rejected =>
      rcases rejected with rfl | rfl
      · exact hkept (.rejected _)
      · exact hkept ((Kept.rejected _).trans (.rejected _))
  | create someBlocks size creates => exact hkept (creates.pools hpools).2.1
  | allocateInvalid => exact hkept (.rejected _)
  | allocateRefused positive refused => exact hkept .refl
  | allocate positive takes => exact hkept (takes.pools hpools).2.1
  | autoInvalid => exact hkept (.rejected _)
  | auto positive allocates =>
      cases allocates with
      | direct exact takes => exact hkept (takes.pools hpools).2.1
      | created creates takes =>
          obtain ⟨hmiddle, hcreated, -, -⟩ := creates.pools hpools
          exact hkept (hcreated.trans (takes.pools hmiddle).2.1)
      | failed creates => exact hkept (creates.pools hpools).2.1
  | release split used out =>
      subst split
      exact hkept (hpools.giveBack_kept used)
  | heapAllocate grown room checks => exact hkept (.of_grown hpools.heap grown)
  | write data =>
      refine ⟨fun _ _ howner => howner, fun address size part howner hpart hwritten => ?_⟩
      exact Function.update_of_ne (List.ne_of_not_mem_cons hwritten) _ _

/-- A block is taken back only when it is given back. -/
theorem PoolStep.keepsOut (hstep : PoolStep target owner views state call reply larger others after)
    (hpools : PoolsAt target owner views state) (hdata : data ∈ handedOut state.log)
    (hcall : call ≠ .release data) : data ∈ handedOut after.log := by
  cases hstep with
  | createInvalid invalid rejected =>
      rcases rejected with rfl | rfl
      · exact hdata
      · exact hdata
  | create someBlocks size creates =>
      rw [(creates.pools hpools).2.2.1]
      exact hdata
  | allocateInvalid => exact hdata
  | allocateRefused positive refused => exact hdata
  | allocate positive takes =>
      rw [(takes.pools hpools).2.2.1]
      exact List.mem_cons_of_mem _ hdata
  | autoInvalid => exact hdata
  | auto positive allocates =>
      cases allocates with
      | direct exact takes =>
          rw [(takes.pools hpools).2.2.1]
          exact List.mem_cons_of_mem _ hdata
      | created creates takes =>
          obtain ⟨hmiddle, -, hout, -⟩ := creates.pools hpools
          rw [(takes.pools hmiddle).2.2.1, hout]
          exact List.mem_cons_of_mem _ hdata
      | failed creates =>
          rw [(creates.pools hpools).2.2.1]
          exact hdata
  | @release front back view node block spare split used out =>
      have hne : data ≠ target.field block 1 := fun heq => hcall (heq ▸ rfl)
      exact (List.mem_erase_of_ne hne).mpr hdata
  | heapAllocate grown room checks =>
      rw [grown.handedOut]
      exact hdata
  | write part => exact hdata

/-! ## Where objects are -/

namespace Stored

/-- The words of an object belong to its block. -/
theorem owner_eq (hstored : Stored target owner state.mem object)
    (hindex : index * target.word < object.size) : ∃ blockSize block,
      object.pointer = target.field block 1 ∧
        owner (target.field object.pointer index) = some (blockSize, .data block index) := by
  obtain ⟨blockSize, block, hpointer, hsize, howner⟩ := hstored.block
  exact ⟨blockSize, block, hpointer, howner index (lt_of_lt_of_le hindex hsize)⟩

/-- Words of different objects are different words. -/
theorem field_ne {place : Nat} (hobject : Stored target owner state.mem object)
    (hother : Stored target owner state.mem other) (hne : object.pointer ≠ other.pointer)
    (hindex : index * target.word < object.size) (hplace : place * target.word < other.size) :
    target.field object.pointer index ≠ target.field other.pointer place := by
  intro heq
  obtain ⟨blockSize, block, hpointer, howner⟩ := hobject.owner_eq hindex
  obtain ⟨otherSize, otherBlock, hotherPointer, hotherOwner⟩ := hother.owner_eq hplace
  rw [heq, hotherOwner] at howner
  cases howner
  exact hne (hpointer.trans hotherPointer.symm)

theorem inHeap (hstored : Stored target owner state.mem object)
    (hpools : PoolsAt target owner views state) : InHeap target state object := by
  have hword := target.word_pos
  have hfirst : 0 * target.word < object.size := by
    rw [Nat.zero_mul]
    exact hstored.positive
  obtain ⟨_, _, -, howner⟩ := hstored.owner_eq hfirst
  obtain ⟨habove, haligned, -⟩ := hpools.heap.inside _ _ howner
  rw [Target.field_zero] at habove haligned
  refine ⟨hpools.heap.ne_null howner, haligned, habove, ?_,
    fun index value hknown => (hstored.contents index value hknown).2⟩
  -- The last byte lies in the last word that belongs to the block.
  have hdiv := Nat.div_add_mod (object.size - 1) target.word
  have hmod := Nat.mod_lt (object.size - 1) hword
  have hpositive := hstored.positive
  rw [Nat.mul_comm] at hdiv
  obtain ⟨_, _, -, hlast⟩ := hstored.owner_eq
    (show (object.size - 1) / target.word * target.word < object.size by omega)
  have hinside := (hpools.heap.inside _ _ hlast).2.2
  unfold Target.field at hinside
  omega

/-- Different objects have no byte in common. -/
theorem apart (hobject : Stored target owner state.mem object)
    (hother : Stored target owner state.mem other) (hpools : PoolsAt target owner views state)
    (hne : object.pointer ≠ other.pointer) : object.Apart other := by
  have hbelow : ∀ {object other : StoredObject Nat}, Stored target owner state.mem object →
      Stored target owner state.mem other → object.pointer < other.pointer →
        object.pointer + object.size ≤ other.pointer := by
    intro object other hobject hother hlt
    by_contra hoverlap
    -- The other object would begin with a word of this one.
    have hplace := hobject.inHeap hpools
    have hotherPlace := hother.inHeap hpools
    obtain ⟨index, hindex⟩ : target.word ∣ other.pointer - object.pointer := by
      have hdvd := Nat.dvd_sub hotherPlace.aligned hplace.aligned
      have heq : other.pointer - target.heapBase - (object.pointer - target.heapBase) =
          other.pointer - object.pointer := by
        have habove := hplace.above
        omega
      rwa [heq] at hdvd
    rw [Nat.mul_comm] at hindex
    have hpositive := hother.positive
    have hindex : index * target.word < object.size := by omega
    have hfirst : 0 * target.word < other.size := by omega
    apply hobject.field_ne hother hlt.ne hindex hfirst
    unfold Target.field
    omega
  rcases Nat.lt_or_gt_of_ne hne with hlt | hlt
  · exact .inl (hbelow hobject hother hlt)
  · exact .inr (hbelow hother hobject hlt)

theorem mono (hstored : Stored target owner state.mem object)
    (howners : ∀ address part, owner address = some part → larger address = some part)
    (hmem : ∀ index, index * target.word < object.size →
      after.mem (target.field object.pointer index) = state.mem (target.field object.pointer index)) :
    Stored target larger after.mem object where
  positive := hstored.positive
  block := by
    obtain ⟨blockSize, block, hpointer, hsize, howner⟩ := hstored.block
    exact ⟨blockSize, block, hpointer, hsize, fun index hindex => howners _ _ (howner index hindex)⟩
  contents := by
    intro index value hknown
    obtain ⟨hindex, hvalue⟩ := hstored.contents index value hknown
    exact ⟨hindex, (hmem index hindex).trans hvalue⟩

end Stored

/-- The block that answers a request holds an object of that size. -/
theorem Takes.stored (htakes : Takes target views state size data others after)
    (hpools : PoolsAt target owner views state) (hsize : 0 < size) (mem : Nat → Nat) :
    Stored target owner mem (.fresh size data) := by
  obtain @⟨front, back, view, node, block, rest, rfl, fit, free⟩ := htakes
  have hblock : block ∈ view.blocks := List.mem_append_left _
    (List.mem_map_of_mem (free ▸ List.mem_cons_self))
  refine ⟨hsize, ⟨view.blockSize, block, rfl, (BestFit.bestFit_mem fit).2, fun index hindex => ?_⟩,
    fun index value hknown => by cases hknown⟩
  rw [StoredObject.fresh_pointer, Target.field_field, Nat.add_comm]
  exact (hpools.heap.placed view mem_middle).data block hblock index hindex

/-- A block that was allocated holds an object of the size that was asked for. -/
theorem PoolStep.stored (hstep : PoolStep target owner views state call (.pointer data) larger others
      after) (hpools : PoolsAt target owner views state)
    (hcall : call = .allocate size ∨ call = .allocateAuto size) (hdata : data ≠ null) :
    Stored target larger after.mem (.fresh size data) := by
  cases hstep with
  | allocateInvalid => exact absurd rfl hdata
  | allocateRefused positive refused => exact absurd rfl hdata
  | allocate positive takes =>
      obtain rfl := PoolCall.allocate.inj (hcall.resolve_right nofun)
      exact takes.stored hpools positive _
  | autoInvalid => exact absurd rfl hdata
  | auto positive allocates =>
      obtain rfl := PoolCall.allocateAuto.inj (hcall.resolve_left nofun)
      cases allocates with
      | direct exact takes => exact takes.stored hpools positive _
      | created creates takes => exact takes.stored (creates.pools hpools).1 positive _
      | failed creates => exact absurd rfl hdata
  | heapAllocate grown room checks => exact hcall.elim nofun nofun

/-! ## The store -/

namespace ObjectsAt

theorem initial : ObjectsAt target (fun _ => none) [] [] .initial :=
  ⟨.initial, by simp, by simp, List.nodup_nil⟩

theorem apart_of_ne (hobjects : ObjectsAt target owner views objects state)
    (hobject : object ∈ objects) (hother : other ∈ objects) (hne : object.pointer ≠ other.pointer) :
    object.Apart other :=
  (hobjects.stored object hobject).apart (hobjects.stored other hother) hobjects.pools hne

theorem inHeap (hobjects : ObjectsAt target owner views objects state) (hobject : object ∈ objects) :
    InHeap target state object := (hobjects.stored object hobject).inHeap hobjects.pools

/-- A call that is for other blocks leaves all objects as they are. -/
theorem poolStep (hobjects : ObjectsAt target owner views objects state)
    (hstep : PoolStep target owner views state call reply larger others after)
    (hspares : call.Spares (objects.map StoredObject.pointer)) :
    ObjectsAt target larger others objects after where
  pools := hstep.pools hobjects.pools
  stored := by
    intro object hobject
    obtain ⟨howners, hmem⟩ := hstep.keepsData hobjects.pools
    have hstored := hobjects.stored object hobject
    apply hstored.mono howners
    intro index hindex
    obtain ⟨blockSize, block, hpointer, howner⟩ := hstored.owner_eq hindex
    apply hmem _ _ _ howner trivial
    cases hstep with
    | @write memPtr place value size other written =>
        intro hwritten
        rw [List.mem_singleton.mp hwritten, written] at howner
        cases howner
        -- A word of the same block is written through the same pointer.
        have hplace := List.mem_singleton.mp hwritten
        have hsame : memPtr = object.pointer := by
          unfold Target.field at hplace
          omega
        exact hspares (hsame ▸ List.mem_map_of_mem hobject)
    | _ => exact List.not_mem_nil
  out := by
    intro object hobject
    apply hstep.keepsOut hobjects.pools (hobjects.out object hobject)
    rintro rfl
    exact hspares (List.mem_map_of_mem hobject)
  distinct := hobjects.distinct

/-- A block that was allocated holds a new object. -/
theorem made (hobjects : ObjectsAt target owner views objects state)
    (hstep : PoolStep target owner views state call (.pointer data) larger others after)
    (hcall : call.IsAllocation) (hdata : data ≠ null)
    (hstored : Stored target larger after.mem (.fresh size data)) :
    ObjectsAt target larger others (.fresh size data :: objects) after := by
  have hspares : call.Spares (objects.map StoredObject.pointer) := by
    cases call with
    | release memPtr => exact hcall.elim
    | write memPtr index value => exact hcall.elim
    | _ => trivial
  have hout := hstep.handsOut hobjects.pools hcall rfl hdata
  have hkept := hobjects.poolStep hstep hspares
  have hnodup := hkept.pools.handedOut_nodup
  rw [hout, List.nodup_cons] at hnodup
  refine ⟨hkept.pools, List.forall_mem_cons.mpr ⟨hstored, hkept.stored⟩,
    List.forall_mem_cons.mpr ⟨?_, hkept.out⟩, List.nodup_cons.mpr ⟨?_, hkept.distinct⟩⟩
  · rw [hout]
    exact List.mem_cons_self
  · intro hmem
    obtain ⟨object, hobject, heq⟩ := List.mem_map.mp hmem
    have hold := hobjects.out object hobject
    rw [heq] at hold
    exact hnodup.1 hold

/-- An object whose block is given back is gone. -/
theorem dropped (hobjects : ObjectsAt target owner views objects state)
    (hstep : PoolStep target owner views state (.release data) reply larger others after) :
    ObjectsAt target larger others (ObjectStore.step objects (.dropped data)) after := by
  have hothers : ObjectsAt target owner views (ObjectStore.step objects (.dropped data)) state :=
    ⟨hobjects.pools, fun object hobject => hobjects.stored object (List.mem_filter.mp hobject).1,
      fun object hobject => hobjects.out object (List.mem_filter.mp hobject).1,
      hobjects.distinct.sublist (List.filter_sublist.map _)⟩
  apply hothers.poolStep hstep
  intro hmem
  obtain ⟨object, hobject, heq⟩ := List.mem_map.mp hmem
  exact of_decide_eq_true (List.mem_filter.mp hobject).2 heq

/-- A word of an object is written, and all others stay. -/
theorem wrote (hobjects : ObjectsAt target owner views objects state) (hobject : object ∈ objects)
    (hindex : index * target.word < object.size) :
    ObjectsAt target owner views (ObjectStore.step objects (.wrote object.pointer index value))
      (state.store (target.field object.pointer index) value) where
  pools := by
    obtain ⟨_, _, -, howner⟩ := (hobjects.stored object hobject).owner_eq hindex
    exact hobjects.pools.store_data howner trivial
  stored := by
    intro changed hchanged
    obtain ⟨other, hother, rfl⟩ := List.mem_map.mp hchanged
    have hstored := hobjects.stored other hother
    -- Whatever the object, its words other than the one written are as before.
    have hword : ∀ place, place * target.word < other.size →
        (other.pointer = object.pointer → place ≠ index) →
          target.field other.pointer place ≠ target.field object.pointer index := by
      intro place hplace hne heq
      by_cases hsame : other.pointer = object.pointer
      · rw [hsame] at heq
        exact hne hsame (Nat.eq_of_mul_eq_mul_right target.word_pos (Nat.add_left_cancel heq))
      · exact hstored.field_ne (hobjects.stored object hobject) hsame hplace hindex heq
    refine ⟨?_, ?_, fun place known hknown => ?_⟩
    · rw [StoredObject.put_size]
      exact hstored.positive
    · rw [StoredObject.put_size, StoredObject.put_pointer]
      exact hstored.block
    rw [StoredObject.put_size, StoredObject.put_pointer]
    by_cases hwritten : other.pointer = object.pointer ∧ place = index
    · obtain ⟨hsame, rfl⟩ := hwritten
      rw [StoredObject.put_contents_self hsame] at hknown
      cases hknown
      have heq : other = object := List.inj_on_of_nodup_map hobjects.distinct hother hobject hsame
      subst heq
      exact ⟨hindex, Function.update_self ..⟩
    · have hne : other.pointer = object.pointer → place ≠ index :=
        fun hsame hplace => hwritten ⟨hsame, hplace⟩
      rw [StoredObject.put_contents_of_ne hne] at hknown
      obtain ⟨hinside, hvalue⟩ := hstored.contents place known hknown
      exact ⟨hinside, (Function.update_of_ne (hword place hinside hne) _ _).trans hvalue⟩
  out := by
    intro changed hchanged
    obtain ⟨other, hother, rfl⟩ := List.mem_map.mp hchanged
    rw [StoredObject.put_pointer]
    exact hobjects.out other hother
  distinct := by
    have hpointers : (ObjectStore.step objects (.wrote object.pointer index value)).map
        StoredObject.pointer = objects.map StoredObject.pointer := by
      simp [ObjectStore.step]
    rw [hpointers]
    exact hobjects.distinct

end ObjectsAt

end MicroTbx

import MicroTbx.Extra.Cplusplus
import MicroTbx.MemPool.Sufficiency

/-! # The memory of a C++ program

What is deleted stays in the pool of its size, and what is made comes from
there. A program therefore takes as much of the heap as the most objects of
each size that it had at one time need, in whatever order it made and deleted
them, and it ends for want of memory exactly when a new object raises this
demand above the heap.
-/

namespace MicroTbx

open Program

section Statement

variable (target : Target)

/-- Bytes for a pool of each size with as many blocks as there were objects of
that size at one time. -/
def heapDemand (events : List (StoreEvent Nat)) : Nat :=
  ((ObjectStore.sizes events).map fun size =>
    poolBytes target + ObjectStore.peak size events * entryBytes target size).sum

/-- The call is one of C++. -/
def CxxCall.IsOwn : CxxCall → Prop
  | .c _ => False
  | _ => True

instance (call : CxxCall) : Decidable call.IsOwn :=
  match call with
  | .c _ => inferInstanceAs (Decidable False)
  | .new _ | .newArray _ | .delete _ | .deleteSized _ _ | .deleteArray _ | .deleteArraySized _ _
  | .store _ _ _ | .load _ _ => inferInstanceAs (Decidable True)

/-- The sizes of the call can be represented together with a header. -/
def CxxCall.Fits (call : CxxCall) : Prop :=
  call.BlockSize fun size => target.Fits (target.word + size)

instance (call : CxxCall) : Decidable (call.Fits target) :=
  inferInstanceAs (Decidable (call.BlockSize fun size => target.Fits (target.word + size)))

/-- What a program takes of the heap, and when it gets no more. -/
structure DemandMet (history : List CxxExchange) (state : State) : Prop where
  taken : state.tbxHeapAllocated = heapDemand target (storeEvents history)
  made : ∀ size mem, target.Fits (target.word + size) → 0 < size →
    heapDemand target (.made size mem :: storeEvents history) ≤ target.heapSize →
    ∃ result after, (operatorNew target size).run 0 state = .done result 0 after
  aborted : ∀ size mem, target.Fits (target.word + size) →
    size = 0 ∨ target.heapSize < heapDemand target (.made size mem :: storeEvents history) →
    ∃ after, (operatorNew target size).run 0 state = .faulted .abort after

/-- The pools have these numbers of blocks, so many of them handed out. -/
structure Counted (views : List PoolView) (present : Nat → Prop) (out blocks : Nat → Nat) :
    Prop where
  present : ∀ size, present size ↔ size ∈ views.map PoolView.blockSize
  out : ∀ view ∈ views, view.out.length = out view.blockSize
  blocks : ∀ view ∈ views, view.blocks.length = blocks view.blockSize

/-- The pools of a program are as large as its history requires. -/
structure Provisioned (events : List (StoreEvent Nat)) (owner : Ownership) (views : List PoolView)
    (state : State) : Prop where
  counted : Counted views (· ∈ ObjectStore.sizes events)
    (fun size => ObjectStore.count size (ObjectStore.objects events))
    fun size => ObjectStore.peak size events
  /-- An object is in the pool of its size. -/
  exact : ∀ object ∈ ObjectStore.objects events, ∃ block,
    owner (target.field object.pointer 0) = some (object.size, .data block 0)
  bytes : state.tbxHeapAllocated = viewsBytes target views

end Statement

variable {target : Target} {owner larger : Ownership} {views others front back : List PoolView}
  {view : PoolView} {state after : State} {call : CxxCall} {reply : CxxReply}
  {history : List CxxExchange} {events : List (StoreEvent Nat)} {size mem data node block : Nat}
  {spare : List Nat} {present : Nat → Prop} {out blocks : Nat → Nat}

/-! ## Numbers of blocks -/

namespace Counted

theorem congr {same : Nat → Prop} {newOut newBlocks : Nat → Nat}
    (hcounted : Counted views present out blocks) (hpresent : ∀ size, same size ↔ present size)
    (hout : ∀ size, newOut size = out size) (hblocks : ∀ size, newBlocks size = blocks size) :
    Counted views same newOut newBlocks where
  present := fun size => (hpresent size).trans (hcounted.present size)
  out := fun view hview => (hcounted.out view hview).trans (hout _).symm
  blocks := fun view hview => (hcounted.blocks view hview).trans (hblocks _).symm

/-- The pool of one size changes. -/
theorem exchange {changed : PoolView} {newOut newBlocks : Nat}
    (hcounted : Counted (front ++ view :: back) present out blocks)
    (hpools : PoolsAt target owner (front ++ view :: back) state)
    (hsize : changed.blockSize = view.blockSize) (hout : changed.out.length = newOut)
    (hblocks : changed.blocks.length = newBlocks) :
    Counted (front ++ changed :: back) present (Function.update out view.blockSize newOut)
      (Function.update blocks view.blockSize newBlocks) where
  present := by
    intro size
    rw [hcounted.present, List.map_append, List.map_cons, List.map_append, List.map_cons, hsize]
  out := by
    apply forall_mem_exchange
    · rw [hsize, Function.update_self, hout]
    · intro other hother
      rw [Function.update_of_ne (hpools.list.size_ne hother)]
      exact hcounted.out other (mem_of_mem_others hother)
  blocks := by
    apply forall_mem_exchange
    · rw [hsize, Function.update_self, hblocks]
    · intro other hother
      rw [Function.update_of_ne (hpools.list.size_ne hother)]
      exact hcounted.blocks other (mem_of_mem_others hother)

theorem exists_view (hcounted : Counted views present out blocks) (hpresent : present size) :
    ∃ view ∈ views, view.blockSize = size :=
  List.mem_map.mp ((hcounted.present size).mp hpresent)

/-- A block is taken from the pool of its size, which had one free. -/
theorem take (hcounted : Counted views present out blocks)
    (hpools : PoolsAt target owner views state)
    (htakes : Takes target views state size data others after) (hpresent : present size) :
    Counted others present (Function.update out size (out size + 1)) blocks ∧
      out size < blocks size := by
  obtain @⟨front, back, view, node, block, rest, rfl, fit, free⟩ := htakes
  obtain ⟨wanted, hwanted, rfl⟩ := hcounted.exists_view hpresent
  obtain ⟨before, behind, hsplit⟩ := List.append_of_mem hwanted
  have hfound := (hsplit ▸ hpools.list.ascending).bestFit_exact
  rw [← hsplit, fit] at hfound
  obtain rfl := Option.some.inj hfound
  have hout := hcounted.out view mem_middle
  have hblocks := hcounted.blocks view mem_middle
  have hlength : (view.take free).out.length = out view.blockSize + 1 := congrArg (· + 1) hout
  have htaken := hcounted.exchange hpools (view.take_same free).blockSize hlength
    ((view.take_blocks free).length_eq.trans hblocks)
  rw [Function.update_eq_self] at htaken
  refine ⟨htaken, ?_⟩
  rw [← hout, ← hblocks, PoolView.blocks, free, List.length_append, List.map_cons, List.length_cons]
  omega

/-- A block comes back to its pool. -/
theorem giveBack (hcounted : Counted (front ++ view :: back) present out blocks)
    (hpools : PoolsAt target owner (front ++ view :: back) state)
    (hused : view.used = node :: spare) (hout : block ∈ view.out) :
    Counted (front ++ view.giveBack hused hout :: back) present
      (Function.update out view.blockSize (out view.blockSize - 1)) blocks := by
  have hlength : (view.out.erase block).length = out view.blockSize - 1 := by
    rw [List.length_erase_of_mem hout, hcounted.out view mem_middle]
  have hback := hcounted.exchange hpools (view.giveBack_same hused hout).blockSize hlength
    ((view.giveBack_blocks hused hout).length_eq.trans (hcounted.blocks view mem_middle))
  rwa [Function.update_eq_self] at hback

/-- A free block joins the pool of its size, which is made if it is missing. -/
theorem extend (hcounted : Counted views present out blocks)
    (hpools : PoolsAt target owner views state) (hextends : Extends views others size 1)
    (hout : ¬ present size → out size = 0) (hblocks : ¬ present size → blocks size = 0) :
    Counted others (fun other => other = size ∨ present other) out
      (Function.update blocks size (blocks size + 1)) := by
  cases hextends with
  | @existing front back view other added before later sameSize same outs free made =>
      subst before later sameSize
      have hlength : other.blocks.length = blocks view.blockSize + 1 := by
        rw [← hcounted.blocks view mem_middle, PoolView.blocks, PoolView.blocks, free, outs,
          List.map_append, List.length_append, List.length_append, List.length_map, List.length_append,
          made]
        omega
      have hextended := hcounted.exchange hpools same.blockSize
        ((congrArg List.length outs).trans (hcounted.out view mem_middle)) hlength
      rw [Function.update_eq_self] at hextended
      refine hextended.congr (fun size => or_iff_right_of_imp ?_) (fun _ => rfl) fun _ => rfl
      rintro rfl
      exact (hcounted.present _).mpr (List.mem_map_of_mem mem_middle)
  | @missing front back other added before later none sameSize outs free made =>
      subst before later sameSize
      have hmissing : ¬ present other.blockSize := fun hpresent => by
        obtain ⟨view, hview, heq⟩ := hcounted.exists_view hpresent
        exact none view hview heq
      refine ⟨fun size => ?_, forall_mem_exchange ?_ fun view hview => ?_,
        forall_mem_exchange ?_ fun view hview => ?_⟩
      · rw [hcounted.present, (List.perm_middle.map _).mem_iff, List.map_cons, List.mem_cons]
      · rw [outs, hout hmissing, List.length_nil]
      · exact hcounted.out view hview
      · rw [Function.update_self, hblocks hmissing, PoolView.blocks, free, outs, List.append_nil,
          List.length_map, made]
      · rw [Function.update_of_ne (none view hview)]
        exact hcounted.blocks view hview

end Counted

/-! ## The demand -/

/-- A demand in numbers of blocks is met by pools of these numbers. -/
theorem heapDemand_eq (hcounted : Counted views (· ∈ ObjectStore.sizes events) out
      fun size => ObjectStore.peak size events) (hpools : PoolsAt target owner views state) :
    heapDemand target events = viewsBytes target views := by
  have hsizes : (views.map PoolView.blockSize).Nodup :=
    List.pairwise_map.mpr (hpools.list.ascending.imp fun hlt => hlt.ne)
  have hperm : (ObjectStore.sizes events).Perm (views.map PoolView.blockSize) :=
    (List.perm_ext_iff_of_nodup ObjectStore.sizes_nodup hsizes).mpr hcounted.present
  rw [heapDemand, (hperm.map _).sum_eq, List.map_map, viewsBytes]
  apply congrArg List.sum
  apply List.map_congr_left
  intro view hview
  have hblocks := hcounted.blocks view hview
  rw [PoolView.blocks, List.length_append, List.length_map] at hblocks
  rw [Function.comp_apply, PoolView.bytes, view.counted, hblocks]

/-- It does not matter where an object is made. -/
theorem heapDemand_pointer (other : Nat) :
    heapDemand target (.made size mem :: events) = heapDemand target (.made size other :: events) := by
  simp only [heapDemand, ObjectStore.sizes, ObjectStore.peak, ObjectStore.objects,
    ObjectStore.count_made]

/-- Where all objects of a size are needed at one time, a further one adds to
the demand. -/
theorem heapDemand_made
    (hfull : ObjectStore.peak size events = ObjectStore.count size (ObjectStore.objects events)) :
    heapDemand target (.made size mem :: events) = heapDemand target events +
      (entryBytes target size + if size ∈ ObjectStore.sizes events then 0 else poolBytes target) := by
  have hother : ∀ other, other ≠ size →
      ObjectStore.peak other (.made size mem :: events) = ObjectStore.peak other events := by
    intro other hne
    apply ObjectStore.peak_cons_eq
    exact fun pointer heq => hne (StoreEvent.made.inj heq).1.symm
  have hown : ObjectStore.peak size (.made size mem :: events) = ObjectStore.peak size events + 1 := by
    rw [ObjectStore.peak_made, ← hfull]
    exact Nat.max_eq_left (Nat.le_succ _)
  have hothers : ∀ sizes : List Nat, size ∉ sizes → sizes.map (fun other => poolBytes target +
      ObjectStore.peak other (.made size mem :: events) * entryBytes target other) =
        sizes.map fun other => poolBytes target +
          ObjectStore.peak other events * entryBytes target other := by
    intro sizes hnot
    apply List.map_congr_left
    intro other hmem
    rw [hother other fun heq => hnot (heq ▸ hmem)]
  unfold heapDemand
  by_cases hmem : size ∈ ObjectStore.sizes events
  · have hsame : ObjectStore.sizes (.made size mem :: events) = ObjectStore.sizes events :=
      List.insert_of_mem hmem
    obtain ⟨front, back, hsplit⟩ := List.append_of_mem hmem
    have hnodup := @ObjectStore.sizes_nodup Nat events
    rw [hsplit, List.nodup_middle, List.nodup_cons, List.mem_append, not_or] at hnodup
    rw [hsame, if_pos hmem, hsplit]
    simp only [List.map_append, List.map_cons, List.sum_append, List.sum_cons, hown,
      hothers front hnodup.1.1, hothers back hnodup.1.2]
    ring
  · have hsame : ObjectStore.sizes (.made size mem :: events) = size :: ObjectStore.sizes events :=
      List.insert_of_not_mem hmem
    rw [hsame, if_neg hmem, List.map_cons, List.sum_cons, hothers _ hmem, hown,
      ObjectStore.peak_eq_zero hmem]
    ring

/-! ## One call -/

/-- The block is of exactly the size, where a pool of it exists. -/
theorem Takes.owner_exact (htakes : Takes target views state size data others after)
    (hpools : PoolsAt target owner views state) (hexact : ∃ view ∈ views, view.blockSize = size) :
    ∃ block, owner (target.field data 0) = some (size, .data block 0) := by
  obtain ⟨view, hview, rfl, entry, hentry, rfl⟩ := htakes.exact_size hpools.list.ascending hexact
  have hblock : entry.2 ∈ view.blocks := List.mem_append_left _ (List.mem_map_of_mem hentry)
  have hdata := (hpools.heap.placed view hview).data entry.2 hblock 0
    (by rw [Nat.zero_mul]; exact view.size_pos)
  rw [Target.field_zero]
  exact ⟨entry.2, hdata⟩

namespace Provisioned

theorem initial : Provisioned target [] (fun _ => none) [] .initial where
  counted := ⟨by simp [ObjectStore.sizes], by simp, by simp⟩
  exact := by simp [ObjectStore.objects]
  bytes := rfl

/-- An event that neither makes nor drops an object. -/
theorem unchanged {event : StoreEvent Nat} (hprovisioned : Provisioned target events owner views state)
    (hevent : ∀ size pointer, event ≠ .made size pointer)
    (hobjects : ∀ object ∈ ObjectStore.objects (event :: events),
      ∃ old ∈ ObjectStore.objects events, object.pointer = old.pointer ∧ object.size = old.size)
    (hcount : ∀ size, ObjectStore.count size (ObjectStore.objects (event :: events)) =
      ObjectStore.count size (ObjectStore.objects events))
    (hbytes : after.tbxHeapAllocated = state.tbxHeapAllocated) :
    Provisioned target (event :: events) owner views after where
  counted := by
    apply hprovisioned.counted.congr
    · intro size
      rw [ObjectStore.sizes_cons_eq hevent]
    · exact hcount
    · exact fun size => ObjectStore.peak_cons_eq (hevent size)
  exact := by
    intro object hobject
    obtain ⟨old, hold, hpointer, hsize⟩ := hobjects object hobject
    rw [hpointer, hsize]
    exact hprovisioned.exact old hold
  bytes := hbytes.trans hprovisioned.bytes

/-- A deleted object leaves its block to the pool of its size. -/
theorem dropped (hprovisioned : Provisioned target events owner views state)
    (hobjects : ObjectsAt target owner views (ObjectStore.objects events) state)
    (hmem : data ∈ (ObjectStore.objects events).map StoredObject.pointer)
    {reply : PoolReply}
    (hstep : PoolStep target owner views state (.release data) reply larger others after) :
    Provisioned target (.dropped data :: events) larger others after := by
  obtain ⟨object, hobject, rfl⟩ := List.mem_map.mp hmem
  generalize hpointer : object.pointer = data at hstep
  cases hstep with
  | @release front back view node block spare split used out =>
      subst split
      -- The block belongs to the pool of the size of the object.
      have hsize : object.size = view.blockSize := by
        obtain ⟨other, howner⟩ := hprovisioned.exact object hobject
        have hblock : block ∈ view.blocks := List.mem_append_right _ out
        have hdata := (hobjects.pools.heap.placed view mem_middle).data block hblock 0
          (by rw [Nat.zero_mul]; exact view.size_pos)
        rw [hpointer, Target.field_zero, hdata] at howner
        exact (Prod.mk.inj (Option.some.inj howner)).1.symm
      refine ⟨?_, fun other hother => ?_, ?_⟩
      · apply (hprovisioned.counted.giveBack hobjects.pools used out).congr
        · intro size
          rw [ObjectStore.sizes_cons_eq fun _ _ heq => by cases heq]
        · intro size
          have hcount := ObjectStore.count_dropped hobjects.distinct hobject size
          rw [hpointer, hsize] at hcount
          by_cases hsame : view.blockSize = size
          · subst hsame
            rw [if_pos rfl] at hcount
            rw [Function.update_self, ObjectStore.objects]
            omega
          · rw [if_neg hsame] at hcount
            rw [Function.update_of_ne (Ne.symm hsame), ObjectStore.objects]
            omega
        · exact fun size => ObjectStore.peak_cons_eq fun _ heq => by cases heq
      · exact hprovisioned.exact other (List.mem_filter.mp hother).1
      · have hbytes := hprovisioned.bytes
        have hview : (view.giveBack used out).bytes target = view.bytes target := by
          simp only [PoolView.bytes, PoolView.giveBack_free, PoolView.giveBack_used,
            PoolView.giveBack_blockSize, used, List.length_cons]
          congr 2
          omega
        rw [viewsBytes_middle] at hbytes ⊢
        rw [hview]
        exact hbytes

/-- When all blocks of a size are handed out, there were never more objects of
the size than now. -/
theorem full (hprovisioned : Provisioned target events owner views state)
    (hpools : PoolsAt target owner views state) (hfull : AllAllocated target size state) :
    ObjectStore.peak size events = ObjectStore.count size (ObjectStore.objects events) := by
  by_cases hmem : size ∈ ObjectStore.sizes events
  · obtain ⟨view, hview, rfl⟩ := hprovisioned.counted.exists_view hmem
    have hfree : view.free = [] := not_not.mp fun hstocked =>
      hpools.not_allAllocated hview hstocked hfull
    have hblocks := hprovisioned.counted.blocks view hview
    rw [PoolView.blocks, hfree, List.map_nil, List.nil_append, hprovisioned.counted.out view hview]
      at hblocks
    exact hblocks.symm
  · have hzero := ObjectStore.peak_eq_zero hmem
    have hle := @ObjectStore.count_le_peak Nat events size
    omega

/-- A new object takes a block that is left, or one more block is made. -/
theorem made (hprovisioned : Provisioned target events owner views state)
    (hpools : PoolsAt target owner views state)
    (hstep : PoolStep target owner views state (.allocateAuto size) (.pointer data) larger others
      after) (hdata : data ≠ null) (hrequests : 0 < size → Requests target size state data after) :
    Provisioned target (.made size data :: events) larger others after := by
  have howners := (hstep.keepsData hpools).1
  have hafter := hstep.pools hpools
  have hold : ∀ object ∈ ObjectStore.objects events, ∃ block,
      larger (target.field object.pointer 0) = some (object.size, .data block 0) := by
    intro object hobject
    obtain ⟨block, howner⟩ := hprovisioned.exact object hobject
    exact ⟨block, howners _ _ howner⟩
  have hcount : ∀ other,
      ObjectStore.count other (ObjectStore.objects (.made size data :: events)) =
        Function.update (fun size => ObjectStore.count size (ObjectStore.objects events)) size
          (ObjectStore.count size (ObjectStore.objects events) + 1) other := by
    intro other
    rw [ObjectStore.objects, ObjectStore.count_made]
    by_cases hsame : other = size
    · rw [hsame, Function.update_self, if_pos rfl]
    · rw [Function.update_of_ne hsame, if_neg (Ne.symm hsame), Nat.add_zero]
  have hpeak : ∀ {grown : Nat},
      max (ObjectStore.count size (ObjectStore.objects events) + 1) (ObjectStore.peak size events) =
        grown → ∀ other, ObjectStore.peak other (.made size data :: events) =
          Function.update (fun size => ObjectStore.peak size events) size grown other := by
    intro grown hgrown other
    by_cases hsame : other = size
    · rw [hsame, Function.update_self, ObjectStore.peak_made, hgrown]
    · rw [Function.update_of_ne hsame]
      exact ObjectStore.peak_cons_eq fun _ heq => hsame (StoreEvent.made.inj heq).1.symm
  cases hstep with
  | autoInvalid => exact absurd rfl hdata
  | auto positive allocates =>
      cases allocates with
      | direct exact takes =>
          obtain ⟨hallocated, hviews⟩ := takes.bytes
          have hpresent : size ∈ ObjectStore.sizes events :=
            (hprovisioned.counted.present size).mpr (List.mem_map.mpr exact)
          obtain ⟨hcounted, hlt⟩ := hprovisioned.counted.take hpools takes hpresent
          refine ⟨hcounted.congr (fun other => ?_) hcount fun other => ?_,
            List.forall_mem_cons.mpr ⟨takes.owner_exact hpools exact, hold⟩, ?_⟩
          · rw [ObjectStore.sizes, List.insert_of_mem hpresent]
          · rw [hpeak (Nat.max_eq_right hlt), Function.update_eq_self]
          · rw [hallocated, hviews]
            exact hprovisioned.bytes
      | created creates takes =>
          obtain ⟨hmiddle, -, -, -⟩ := creates.pools hpools
          obtain ⟨hbytes, hgrown⟩ := creates.bytes hpools positive
          obtain ⟨hallocated, hviews⟩ := takes.bytes
          -- The heap grew, so nothing of the size was free.
          have hallAllocated : AllAllocated target size state := by
            by_contra hspare
            have hsame := ((hrequests positive).spare hspare).2.1
            have hentry := entryBytes_pos target size
            have htaken := hgrown rfl
            omega
          have hfull := hprovisioned.full hpools hallAllocated
          have hzero : size ∉ ObjectStore.sizes events →
              ObjectStore.count size (ObjectStore.objects events) = 0 :=
            fun hnot => hfull ▸ ObjectStore.peak_eq_zero hnot
          have hextended := hprovisioned.counted.extend hpools creates.extends hzero
            ObjectStore.peak_eq_zero
          obtain ⟨hcounted, -⟩ := hextended.take hmiddle takes (.inl rfl)
          refine ⟨hcounted.congr (fun other => ?_) hcount ?_,
            List.forall_mem_cons.mpr ⟨takes.owner_exact hmiddle (hextended.exists_view (.inl rfl)),
              hold⟩, ?_⟩
          · rw [ObjectStore.sizes, List.mem_insert_iff]
          · apply hpeak
            rw [← hfull]
            exact Nat.max_eq_left (Nat.le_succ _)
          · have hstart := hprovisioned.bytes
            rw [if_neg (by simp)] at hbytes
            omega
      | failed creates => exact absurd rfl hdata

end Provisioned

/-- What one call does to the demand and to the pools. -/
theorem Provisioned.cxxStep (hprovisioned : Provisioned target (storeEvents history) owner views state)
    (hobjects : ObjectsAt target owner views (liveObjects history) state)
    (hallowed : call.Allowed target (liveObjects history) state) (hown : call.IsOwn)
    (hstep : CxxStep target owner views state call reply larger others after) :
    Provisioned target (storeEvents (⟨call, reply, state, after⟩ :: history)) larger others after := by
  rw [storeEvents, List.map_cons]
  cases hstep with
  | made asks ne_null requests step =>
      rw [event_made asks]
      exact hprovisioned.made hobjects.pools step ne_null requests
  | nothing deletes =>
      rw [event_deleted deletes, if_pos rfl]
      exact hprovisioned.unchanged (fun _ _ heq => by cases heq)
        (fun object hobject => ⟨object, hobject, rfl, rfl⟩) (fun _ => rfl) rfl
  | dropped deletes ne_null step =>
      rw [event_deleted deletes, if_neg ne_null]
      exact hprovisioned.dropped hobjects (hallowed.mem_of_deleted deletes ne_null) step
  | @store mem index value =>
      have hevent : ∀ size pointer, StoreEvent.wrote mem index value ≠ .made size pointer :=
        fun _ _ heq => by cases heq
      refine hprovisioned.unchanged hevent (fun object hobject => ?_)
        (fun size => ObjectStore.count_wrote) rfl
      obtain ⟨old, hold, rfl⟩ := ObjectStore.mem_step_wrote hobject
      exact ⟨old, hold, StoredObject.put_pointer, StoredObject.put_size⟩
  | load =>
      exact hprovisioned.unchanged (fun _ _ heq => by cases heq)
        (fun object hobject => ⟨object, hobject, rfl, rfl⟩) (fun _ => rfl) rfl
  | c step => exact hown.elim

/-! ## Every run -/

theorem CxxCall.Fits.sound (hfits : call.Fits target) : call.BlockSize target.Sound := by
  cases call with
  | new size => exact .inl hfits
  | newArray size => exact .inl hfits
  | c pool => exact PoolCall.Fits.sound hfits
  | _ => exact hfits

/-- The pools are as large as the history requires, along every run. -/
theorem Provisioned.of_run (hrun : (cxxInterface target).Run history state)
    (hcalls : ∀ exchange ∈ history, exchange.request.IsOwn ∧ exchange.request.Fits target) :
    ∃ owner views, ObjectsAt target owner views (liveObjects history) state ∧
      Provisioned target (storeEvents history) owner views state := by
  induction hrun with
  | start => exact ⟨_, _, .initial, .initial⟩
  | @step history before after call reply prior isAllowed returned ih =>
      obtain ⟨⟨hown, hfits⟩, hearlier⟩ := List.forall_mem_cons.mp hcalls
      obtain ⟨owner, views, hobjects, hprovisioned⟩ := ih hearlier
      rcases hobjects.cxx isAllowed hfits.sound with ⟨_, _, larger, others, hdone, hstep⟩ | haborts
      · cases hdone.symm.trans returned
        exact ⟨larger, others, (hobjects.cxxStep isAllowed hstep).1,
          hprovisioned.cxxStep hobjects isAllowed hown hstep⟩
      · obtain ⟨-, _, hfaulted⟩ := haborts
        cases hfaulted.symm.trans returned

/-- A request for nothing, or for more than the heap holds, ends the program. -/
theorem Provisioned.demand_lt (hprovisioned : Provisioned target events owner views state)
    (hpools : PoolsAt target owner views state)
    (hstep : PoolStep target owner views state (.allocateAuto size) (.pointer null) larger others
      after) (hsize : 0 < size) (hrequests : Requests target size state null after) (mem : Nat) :
    target.heapSize < heapDemand target (.made size mem :: events) := by
  have hallAllocated : AllAllocated target size state := by
    by_contra hspare
    exact (hrequests.spare hspare).1 rfl
  have hpresent : size ∈ ObjectStore.sizes events ↔ ∃ view ∈ views, view.blockSize = size :=
    (hprovisioned.counted.present size).trans List.mem_map
  rw [heapDemand_made (hprovisioned.full hpools hallAllocated),
    heapDemand_eq hprovisioned.counted hpools, ← hprovisioned.bytes]
  generalize hreply : PoolReply.pointer null = reply at hstep
  cases hstep with
  | autoInvalid => exact absurd hsize (Nat.lt_irrefl 0)
  | auto positive allocates =>
      cases allocates with
      | direct exact takes => exact absurd (PoolReply.pointer.inj hreply).symm (takes.ne_null hpools)
      | created creates takes =>
          exact absurd (PoolReply.pointer.inj hreply).symm (takes.ne_null (creates.pools hpools).1)
      | failed creates =>
          have hroom : ¬ creationBytes target state (views.map PoolView.node) 1 size ≤
              state.room target := fun hroom => by
            cases (creates.ok_iff hpools).mpr hroom
          rw [creationBytes_eq hpools, Nat.one_mul, State.room] at hroom
          simp only [hpresent]
          omega

/-- The heap holds what the most objects of each size at one time need, no more,
and new objects are refused only for want of it. -/
theorem cxx_memory_exact (hrun : (cxxInterface target).Run history state)
    (hcalls : ∀ exchange ∈ history, exchange.request.IsOwn ∧ exchange.request.Fits target) :
    DemandMet target history state := by
  obtain ⟨owner, views, hobjects, hprovisioned⟩ := Provisioned.of_run hrun hcalls
  have hpools := hobjects.pools
  have hword := target.word_pos
  have hlt : ∀ size, target.Fits (target.word + size) → size < 2 ^ target.sizeBits := by
    intro size hfits
    unfold Target.Fits at hfits
    omega
  refine ⟨(heapDemand_eq hprovisioned.counted hpools).symm ▸ hprovisioned.bytes,
    fun size mem hfits hsize hdemand => ?_, fun size mem hfits hcondition => ?_⟩
  · obtain ⟨data, after, larger, others, hstep, hrequests, hdone⟩ :=
      hpools.operatorNew (hlt size hfits) (.inl hfits)
    have hdata : data ≠ null := by
      rintro rfl
      exact absurd (hprovisioned.demand_lt hpools hstep hsize (hrequests hsize) mem)
        (Nat.not_lt.mpr hdemand)
    rw [if_neg hdata] at hdone
    exact ⟨data, after, hdone⟩
  · obtain ⟨data, after, larger, others, hstep, hrequests, hdone⟩ :=
      hpools.operatorNew (hlt size hfits) (.inl hfits)
    have hdata : data = null := by
      by_contra hne
      have hafter := hprovisioned.made hpools hstep hne hrequests
      have hpositive := (hstep.stored hpools (.inr rfl) hne).positive
      have hle := (hstep.pools hpools).heap.allocated_le
      rw [hafter.bytes, ← heapDemand_eq hafter.counted (hstep.pools hpools), heapDemand_pointer mem]
        at hle
      rw [StoredObject.fresh_size] at hpositive
      omega
    rw [if_pos hdata] at hdone
    exact ⟨after, hdone⟩

/-- Two objects are deleted, and made anew beside a larger one. -/
def demandingCalls : List CxxCall :=
  [.new 20, .newArray 20, .new 40, .delete 4176, .deleteArray 4224, .newArray 20, .new 20]

theorem cxx_memory_exact_reused : ∃ history state, (cxxInterface linux64).Run history state ∧
    history.map Exchange.request = demandingCalls ∧ state.tbxHeapAllocated = 272 ∧
      DemandMet linux64 history state := by
  have hexecutes : ((cxxInterface linux64).execute demandingCalls).map
      (·.2.tbxHeapAllocated) = some 272 := by
    decide +kernel
  obtain ⟨history, state, hrun, hrequests, htaken⟩ := Interface.execute_map hexecutes
  have hcalls : ∀ request ∈ history.map Exchange.request, request.IsOwn ∧ request.Fits linux64 := by
    rw [hrequests]
    decide
  exact ⟨history, state, hrun, hrequests, htaken,
    cxx_memory_exact hrun (List.forall_mem_map.mp hcalls)⟩

end MicroTbx

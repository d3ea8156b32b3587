import MicroTbx.MemPool.Insert

/-! # Taking new memory for pools

A creation takes words above everything allocated so far, so that whatever it
stores there disturbs no pool. The new words get their owners when the objects
in them are linked; words taken for an object that is never linked stay
without an owner.
-/

namespace MicroTbx

open Program

variable (target : Target)

/-- The first free address of the heap. -/
def State.heapEnd (state : State) (target : Target) : Nat :=
  target.heapBase + state.tbxHeapAllocated

/-- Bytes of the heap that are free. -/
def State.room (state : State) (target : Target) : Nat :=
  target.heapSize - state.tbxHeapAllocated

/-- What a creation does before it links anything: memory is taken and only
written above the old end of the heap. -/
structure State.Grown (state after : State) (bytes : Nat) : Prop where
  list : after.tbxPoolList = state.tbxPoolList
  allocated : after.tbxHeapAllocated = state.tbxHeapAllocated + bytes
  mem : ∀ address < target.heapBase + state.tbxHeapAllocated,
    after.mem address = state.mem address
  handedOut : handedOut after.log = MicroTbx.handedOut state.log
  added : ∀ size, blocksAdded size after.log = blocksAdded size state.log
  kept : ∀ event ∈ state.log, event ∈ after.log

/-- New words in a row get owners. -/
def Ownership.claim (owner : Ownership) (start : Nat) (parts : List (Nat × Part)) : Ownership :=
  fun address => (owner address).or
    (if start ≤ address ∧ target.word ∣ address - start then
      parts[(address - start) / target.word]?
    else none)

variable {target} {owner : Ownership} {views : List PoolView} {state middle after : State}
  {bytes more address start index allocated count : Nat} {parts : List (Nat × Part)}
  {part : Nat × Part}

namespace State.Grown

theorem refl : state.Grown target state 0 :=
  ⟨rfl, rfl, fun _ _ => rfl, rfl, fun _ => rfl, fun _ hevent => hevent⟩

theorem trans (hfirst : state.Grown target middle bytes) (hnext : middle.Grown target after more) :
    state.Grown target after (bytes + more) where
  list := hnext.list.trans hfirst.list
  allocated := by rw [hnext.allocated, hfirst.allocated, Nat.add_assoc]
  mem := by
    intro address haddress
    rw [hnext.mem address (by rw [hfirst.allocated]; omega), hfirst.mem address haddress]
  handedOut := hnext.handedOut.trans hfirst.handedOut
  added := fun size => (hnext.added size).trans (hfirst.added size)
  kept := fun event hevent => hnext.kept event (hfirst.kept event hevent)

theorem takeHeap (state : State) (bytes : Nat) :
    state.Grown target (state.takeHeap target bytes) bytes := by
  refine ⟨by simp, by simp, fun _ _ => by simp, by simp, fun _ => by simp, ?_⟩
  exact fun event hevent => List.mem_cons_of_mem _ hevent

theorem store (hgrown : state.Grown target middle bytes)
    (hnew : target.heapBase + state.tbxHeapAllocated ≤ address) (value : Nat) :
    state.Grown target (middle.store address value) bytes where
  list := hgrown.list
  allocated := hgrown.allocated
  mem := by
    intro other hother
    rw [State.store_mem, Function.update_of_ne (by omega), hgrown.mem other hother]
  handedOut := hgrown.handedOut
  added := hgrown.added
  kept := hgrown.kept

end State.Grown

theorem State.heapEnd_ne_null (state : State) : state.heapEnd target ≠ null := by
  have hbase := target.heapBase_pos
  simp only [State.heapEnd, null_eq]
  omega

theorem State.heapEnd_takeHeap (state : State) (count : Nat) :
    (state.takeHeap target (count * target.word)).heapEnd target =
      target.field (state.heapEnd target) count := by
  simp [State.heapEnd, Target.field, Nat.add_assoc]

theorem Target.field_field (pointer index member : Nat) :
    target.field (target.field pointer index) member = target.field pointer (index + member) := by
  simp only [field, Nat.add_mul, Nat.add_assoc]

/-- Members of one run of words differ when their indices do. -/
theorem Target.field_index_inj {pointer left right : Nat} :
    target.field pointer left = target.field pointer right ↔ left = right := by
  simp [field, Nat.mul_right_cancel_iff target.word_pos]

/-! ## Owners of new words -/

theorem Ownership.claim_old (howner : owner address = some part) :
    owner.claim target start parts address = some part := by
  simp [claim, howner]

theorem Ownership.claim_new (howner : owner (target.field start index) = none) :
    owner.claim target start parts (target.field start index) = parts[index]? := by
  have hdiv : (target.field start index - start) / target.word = index := by
    rw [Target.field, Nat.add_sub_cancel_left, Nat.mul_div_cancel _ target.word_pos]
  have hinside : start ≤ target.field start index ∧
      target.word ∣ target.field start index - start := by
    rw [Target.field, Nat.add_sub_cancel_left]
    exact ⟨Nat.le_add_right .., Nat.dvd_mul_left ..⟩
  rw [claim, howner, Option.none_or, if_pos hinside, hdiv]

theorem Ownership.claim_cases (hclaim : owner.claim target start parts address = some part) :
    owner address = some part ∨ ∃ index, address = target.field start index ∧
      parts[index]? = some part := by
  unfold claim at hclaim
  cases howner : owner address with
  | some old =>
      rw [howner, Option.some_or] at hclaim
      exact .inl hclaim
  | none =>
      rw [howner, Option.none_or] at hclaim
      split at hclaim
      · next hinside =>
          refine .inr ⟨(address - start) / target.word, ?_, hclaim⟩
          rw [Target.field, Nat.div_mul_cancel hinside.2]
          omega
      · cases hclaim

theorem PoolHeap.unowned (hheap : PoolHeap target owner allocated views)
    (hnew : target.heapBase + allocated ≤ address) : owner address = none := by
  cases howner : owner address with
  | none => rfl
  | some part =>
      have hinside := (hheap.inside address part howner).2.2
      have hword := target.word_pos
      omega

theorem PoolHeap.unowned_field (hheap : PoolHeap target owner state.tbxHeapAllocated views)
    (index : Nat) : owner (target.field (state.heapEnd target) index) = none :=
  hheap.unowned (Nat.le_add_right ..)

/-- A pool does not see what is stored above the heap. -/
theorem PoolStored.grow {view : PoolView} (hstored : PoolStored target state.mem view)
    (hplaced : PoolPlaced target owner view)
    (hheap : PoolHeap target owner state.tbxHeapAllocated views)
    (hgrown : state.Grown target after bytes) : PoolStored target after.mem view := by
  refine hstored.frame hplaced fun address part howner _ => ?_
  have hinside := (hheap.inside _ _ howner).2.2
  have hword := target.word_pos
  exact hgrown.mem address (by omega)

/-- The pools after words behind the heap were taken and given owners. -/
theorem PoolHeap.claim (hheap : PoolHeap target owner allocated views)
    (hparts : parts.length * target.word ≤ bytes) (haligned : target.word ∣ bytes)
    (hle : allocated + bytes ≤ target.heapSize) :
    PoolHeap target (owner.claim target (target.heapBase + allocated) parts) (allocated + bytes)
      views where
  placed := fun view hview => (hheap.placed view hview).mono fun _ _ => Ownership.claim_old
  inside := by
    intro address part hclaim
    rcases Ownership.claim_cases hclaim with howner | ⟨index, rfl, hindex⟩
    · obtain ⟨hlow, hdvd, hhigh⟩ := hheap.inside address part howner
      exact ⟨hlow, hdvd, by omega⟩
    · obtain ⟨hlt, -⟩ := List.getElem?_eq_some_iff.mp hindex
      have hend : (index + 1) * target.word ≤ parts.length * target.word :=
        Nat.mul_le_mul_right _ hlt
      rw [Nat.succ_mul] at hend
      have hoffset : target.field (target.heapBase + allocated) index - target.heapBase =
          allocated + index * target.word := by
        unfold Target.field
        omega
      refine ⟨by unfold Target.field; omega, ?_, by unfold Target.field; omega⟩
      rw [hoffset]
      exact Nat.dvd_add hheap.aligned (Nat.dvd_mul_left ..)
  aligned := Nat.dvd_add hheap.aligned haligned
  allocated_le := hle

theorem PoolHeap.grow (hheap : PoolHeap target owner allocated views) (haligned : target.word ∣ bytes)
    (hle : allocated + bytes ≤ target.heapSize) :
    PoolHeap target owner (allocated + bytes) views where
  placed := hheap.placed
  inside := by
    intro address part howner
    obtain ⟨hlow, hdvd, hhigh⟩ := hheap.inside address part howner
    exact ⟨hlow, hdvd, by omega⟩
  aligned := Nat.dvd_add hheap.aligned haligned
  allocated_le := hle

/-- Memory above the heap does not concern the pools. -/
theorem PoolList.grow {head : Nat} (hlist : PoolList target state.mem head views)
    (hheap : PoolHeap target owner state.tbxHeapAllocated views)
    (hgrown : state.Grown target after bytes) : PoolList target after.mem head views := by
  refine hlist.frame hheap.placed fun address size part howner _ => ?_
  have hinside := (hheap.inside _ _ howner).2.2
  have hword := target.word_pos
  exact hgrown.mem address (by omega)

theorem PoolLog.grow (hlog : PoolLog target state.log views)
    (hgrown : state.Grown target after bytes) : PoolLog target after.log views where
  out := hgrown.handedOut ▸ hlog.out
  added := fun view hview => by
    rw [hgrown.added]
    exact hlog.added view hview
  addedElsewhere := fun size hsize => by
    rw [hgrown.added]
    exact hlog.addedElsewhere size hsize
  reserved := fun view hview block hblock => hgrown.kept _ (hlog.reserved view hview block hblock)

/-- Taking memory without linking anything leaves the pools as they are. -/
theorem PoolsAt.grow (hpools : PoolsAt target owner views state)
    (hgrown : state.Grown target after bytes) (haligned : target.word ∣ bytes)
    (hle : state.tbxHeapAllocated + bytes ≤ target.heapSize) :
    PoolsAt target owner views after where
  list := by
    rw [hgrown.list]
    exact hpools.list.grow hpools.heap hgrown
  heap := by
    rw [hgrown.allocated]
    exact hpools.heap.grow haligned hle
  log := hpools.log.grow hgrown

/-! ## Requests for whole words -/

theorem sizeWanted_words (hcount : count ≤ 7) :
    sizeWanted target (count * target.word) = count * target.word := by
  rw [sizeWanted_of_fits, Target.roundUp_mul]
  have hwords := target.eight_words_le
  have hword := target.word_pos
  have hle : count * target.word ≤ 7 * target.word := Nat.mul_le_mul_right _ hcount
  unfold Target.Fits
  omega

theorem tbxHeapAllocate_words (hpos : 0 < count) (hcount : count ≤ 7)
    (hroom : state.tbxHeapAllocated + count * target.word ≤ target.heapSize) :
    (tbxHeapAllocate target (count * target.word)).Evaluates state (state.heapEnd target)
      (state.takeHeap target (count * target.word)) := by
  have hroom' := @tbxHeapAllocate_room target (count * target.word) state
    (Nat.mul_pos hpos target.word_pos) (by omega)
  rw [sizeWanted_words hcount] at hroom'
  exact hroom' (by omega)

theorem tbxHeapAllocate_noWords (hpos : 0 < count) (hcount : count ≤ 7)
    (hle : state.tbxHeapAllocated ≤ target.heapSize)
    (hfull : target.heapSize < state.tbxHeapAllocated + count * target.word) :
    (tbxHeapAllocate target (count * target.word)).Evaluates state null state := by
  apply tbxHeapAllocate_full (Nat.mul_pos hpos target.word_pos) hle
  rw [sizeWanted_words hcount]
  omega

end MicroTbx

import MicroTbx.MemPool.Sufficiency

/-! # What the pools can still serve

A request is answered from the free blocks of its best fit, and when there are
none the caller can have blocks made as long as the heap has room for them.
Both supplies are counted, and each function is told by what it does to the
counts.
-/

namespace MicroTbx

section Definitions

variable (target : Target) (views : List PoolView) (size : Nat)

/-- The free blocks that requests of a size are answered from. -/
def stock : Nat :=
  ((BestFit.bestFit PoolView.blockSize views size).map fun view => view.free.length).getD 0

/-- How many blocks of a size can be made, one by one. -/
def makeable (state : State) : Nat :=
  (state.room target - if ∃ view ∈ views, view.blockSize = size then 0 else poolBytes target) /
    entryBytes target size

/-- How many requests for one block of a size can be served, one by one, when a
block is made each time that none is free. -/
def supply (state : State) : Nat := stock views size + makeable target views size state

/-- The blocks that become free for a size when a block is released. -/
def regained (data : Nat) : Nat :=
  ((BestFit.bestFit PoolView.blockSize views size).map fun view =>
    if data - target.word ∈ view.out then 1 else 0).getD 0

end Definitions

variable {target : Target} {owner larger : Ownership} {views others front back : List PoolView}
  {view other : PoolView} {state after : State} {size data : Nat} {status : Status}

/-! ## Exchanging a view -/

theorem stock_eq_zero
    (hrefused : ¬ BestFit.Serves PoolView.blockSize PoolView.Stocked views size) :
    stock views size = 0 := by
  unfold stock
  cases hfit : BestFit.bestFit PoolView.blockSize views size with
  | none => rfl
  | some view =>
      by_contra hne
      exact hrefused ⟨view, hfit, fun hempty => hne (by simp [hempty])⟩

/-- The stock when the blocks of one pool change. -/
theorem PoolsAt.stock_exchange (hpools : PoolsAt target owner (front ++ view :: back) state)
    (hsize : other.blockSize = view.blockSize) :
    (BestFit.bestFit PoolView.blockSize (front ++ view :: back) size = some view ∧
        stock (front ++ view :: back) size = view.free.length ∧
        stock (front ++ other :: back) size = other.free.length) ∨
      (BestFit.bestFit PoolView.blockSize (front ++ view :: back) size ≠ some view ∧
        stock (front ++ other :: back) size = stock (front ++ view :: back) size) := by
  unfold stock
  rcases hpools.list.ascending.bestFit_exchange hsize size with ⟨hbefore, hlater⟩ | ⟨hne, hsame⟩
  · refine .inl ⟨hbefore, ?_, ?_⟩
    · rw [hbefore]
      rfl
    · rw [hlater]
      rfl
  · exact .inr ⟨hne, by rw [hsame]⟩

/-- What can be made depends on the sizes of the pools and the room. -/
theorem makeable_exchange (hsize : other.blockSize = view.blockSize)
    (hroom : after.tbxHeapAllocated = state.tbxHeapAllocated) :
    makeable target (front ++ other :: back) size after =
      makeable target (front ++ view :: back) size state := by
  have hexists : (∃ neighbour ∈ front ++ other :: back, neighbour.blockSize = size) ↔
      ∃ neighbour ∈ front ++ view :: back, neighbour.blockSize = size := by
    simp only [List.mem_append, List.mem_cons, or_and_right, exists_or, exists_eq_left, hsize]
  simp only [makeable, State.room, hroom, hexists]

theorem makeable_same (hroom : after.tbxHeapAllocated = state.tbxHeapAllocated) :
    makeable target views size after = makeable target views size state := by
  simp only [makeable, State.room, hroom]

theorem supply_same (hroom : after.tbxHeapAllocated = state.tbxHeapAllocated) :
    supply target views size after = supply target views size state :=
  congrArg (stock views size + ·) (makeable_same hroom)

/-! ## Allocating and releasing -/

theorem Takes.supply (htakes : Takes target views state size data others after)
    (hpools : PoolsAt target owner views state) :
    stock others size + 1 = stock views size ∧
      makeable target others size after = makeable target views size state := by
  obtain @⟨front, back, view, node, block, rest, rfl, fit, free⟩ := htakes
  refine ⟨?_, makeable_exchange rfl rfl⟩
  rcases hpools.stock_exchange (show (view.take free).blockSize = view.blockSize from rfl) with
    ⟨-, hbefore, hlater⟩ | ⟨hne, -⟩
  · rw [hbefore, hlater, free]
    rfl
  · exact absurd fit hne

/-- A block has one header, so it is in one pool. -/
theorem PoolsAt.block_unique {block : Nat} (hpools : PoolsAt target owner views state)
    (hview : view ∈ views) (hother : other ∈ views) (hout : block ∈ view.out)
    (hotherOut : block ∈ other.out) : other = view := by
  have hown := (hpools.heap.placed view hview).header block (List.mem_append_right _ hout)
  have hotherOwn := (hpools.heap.placed other hother).header block
    (List.mem_append_right _ hotherOut)
  rw [hown] at hotherOwn
  exact hpools.list.ascending.ext hother hview (congrArg Prod.fst (Option.some.inj hotherOwn)).symm

variable (target) (views) (state) in
/-- A block that is handed out is put back into its pool. -/
inductive GivesBack : Nat → List PoolView → State → Prop
  | intro {front back : List PoolView} {view : PoolView} {node block : Nat} {spare : List Nat}
      (split : views = front ++ view :: back) (used : view.used = node :: spare)
      (out : block ∈ view.out) :
      GivesBack (target.field block 1) (front ++ view.giveBack used out :: back)
        (state.giveBackBlock target view node block)

theorem GivesBack.supply (hgives : GivesBack target views state data others after)
    (hpools : PoolsAt target owner views state) :
    stock others size = stock views size + regained target views size data ∧
      makeable target others size after = makeable target views size state := by
  obtain @⟨front, back, view, node, block, spare, rfl, hused, hout⟩ := hgives
  refine ⟨?_, makeable_exchange rfl rfl⟩
  have hdata : target.field block 1 - target.word = block := by
    unfold Target.field
    omega
  unfold regained
  rw [hdata]
  rcases hpools.stock_exchange
      (show (view.giveBack hused hout).blockSize = view.blockSize from rfl) with
    ⟨hfit, hbefore, hlater⟩ | ⟨hne, hsame⟩
  · rw [hbefore, hlater, hfit, Option.map_some, if_pos hout]
    rfl
  · rw [hsame]
    cases hfit : BestFit.bestFit PoolView.blockSize (front ++ view :: back) size with
    | none => rfl
    | some fit =>
        have hmem := (BestFit.bestFit_mem hfit).1
        have hother : block ∉ fit.out := fun hother => hne (hfit.trans (congrArg some
          (hpools.block_unique mem_middle hmem hout hother)))
        rw [Option.map_some, if_neg hother]
        rfl

/-! ## Creating -/

theorem makeable_pos_iff (hpools : PoolsAt target owner views state) :
    0 < makeable target views size state ↔
      creationBytes target state (views.map PoolView.node) 1 size ≤ state.room target := by
  rw [creationBytes_eq hpools, makeable, Nat.one_mul, Nat.div_pos_iff]
  have hentry := entryBytes_pos target size
  omega

/-- The stock for the size of a pool is what this pool holds. -/
theorem PoolsAt.stock_exact (hpools : PoolsAt target owner (front ++ view :: back) state) :
    stock (front ++ view :: back) view.blockSize = view.free.length := by
  rw [stock, hpools.list.ascending.bestFit_exact]
  rfl

namespace Creates

/-- A block that is made joins the free blocks of the pool of its size. -/
theorem supply_ok (hcreates : Creates target owner views state 1 size .ok larger others after)
    (hpools : PoolsAt target owner views state) (hsize : 0 < size) :
    makeable target others size after + 1 = makeable target views size state ∧
      0 < stock others size ∧ stock others size ≤ stock views size + 1 := by
  have hafter := (hcreates.pools hpools).1
  have hexact : ∃ view ∈ others, view.blockSize = size := by
    obtain ⟨view, hview, hviewSize, -⟩ := hcreates.ok_stocked Nat.one_pos
    exact ⟨view, hview, hviewSize⟩
  constructor
  · have hentry := entryBytes_pos target size
    have hallocated := hcreates.allocated_eq hpools hsize
    have hroom := (hcreates.ok_iff hpools).mp rfl
    rw [creationBytes_eq hpools, Nat.one_mul] at hallocated hroom
    rw [makeable, makeable, if_pos hexact]
    generalize (if ∃ view ∈ views, view.blockSize = size then 0 else poolBytes target) = extra at *
    have hrest : after.room target - 0 = state.room target - extra - entryBytes target size := by
      unfold State.room at hroom ⊢
      omega
    rw [hrest]
    exact (Nat.div_eq_sub_div hentry (by omega)).symm
  · cases hcreates.extends with
    | existing before later sameSize same out free made =>
        subst before later sameSize
        have hlater := hafter.stock_exact
        rw [same.blockSize, free, List.length_append, made] at hlater
        rw [hpools.stock_exact, hlater]
        omega
    | missing before later none sameSize out free made =>
        subst before later sameSize
        rw [hafter.stock_exact, free, made]
        omega

/-- A creation that fails leaves no room for another one. -/
theorem supply_error
    (hcreates : Creates target owner views state 1 size .error larger others after)
    (hpools : PoolsAt target owner views state) :
    makeable target views size state = 0 ∧ makeable target others size after = 0 ∧
      stock others size ≤ stock views size := by
  have hentry := entryBytes_pos target size
  have hnone : makeable target views size state = 0 := by
    by_contra hne
    have hok := (hcreates.ok_iff hpools).mpr ((makeable_pos_iff hpools).mp (Nat.pos_of_ne_zero hne))
    cases hok
  have hzero : ∀ {bytes : Nat}, bytes ≤ state.room target - (if ∃ view ∈ views,
      view.blockSize = size then 0 else poolBytes target) → bytes / entryBytes target size = 0 :=
    fun hle => Nat.le_zero.mp (hnone ▸ Nat.div_le_div_right hle)
  have hlength : ∀ {view other : PoolView} {room : Nat},
      view.Extended other (blocksMade target size 1 room) →
      Status.error = (if blocksMade target size 1 room = 1 then .ok else .error) →
      other.free.length = view.free.length := by
    intro view other room hextended hstatus
    obtain ⟨added, hmade, hfree⟩ := hextended.free
    have hle : blocksMade target size 1 room ≤ 1 := Nat.min_le_left ..
    have hne : blocksMade target size 1 room ≠ 1 :=
      fun hone => by rw [if_pos hone] at hstatus; cases hstatus
    rw [hfree, List.length_append]
    omega
  refine ⟨hnone, ?_⟩
  generalize hstatus : Status.error = status at hcreates
  cases hcreates with
  | @extended front back view other larger after split sameSize extension =>
      subst split
      have hviewSize := extension.extended.same.blockSize
      constructor
      · rw [makeable, if_pos ⟨other, mem_middle, hviewSize.trans sameSize⟩]
        apply hzero
        rw [if_pos ⟨view, mem_middle, sameSize⟩, State.room, extension.allocated, State.room]
        omega
      · rcases hpools.stock_exchange hviewSize with ⟨-, hbefore, hlater⟩ | ⟨-, hsame⟩
        · rw [hbefore, hlater, hlength extension.extended hstatus]
        · exact hsame.le
  | @created front back view other larger after split below above room sameSize noFree noOut
      extension =>
      have hviewSize := extension.extended.same.blockSize.trans sameSize
      have hmissing : ¬ ∃ view ∈ views, view.blockSize = size := by
        rintro ⟨neighbour, hneighbour, heq⟩
        rcases List.mem_append.mp (split ▸ hneighbour) with hfront | hback
        · exact (below neighbour hfront).ne heq
        · exact (above neighbour hback).ne' heq
      constructor
      · rw [makeable, if_pos ⟨other, mem_middle, hviewSize⟩]
        apply hzero
        rw [if_neg hmissing, State.room, extension.allocated, State.room]
        omega
      · subst hviewSize
        rw [extension.pools.stock_exact, hlength extension.extended hstatus, noFree]
        exact Nat.zero_le _
  | refused none noRoom grown checked =>
      refine ⟨?_, le_rfl⟩
      rw [makeable]
      apply hzero
      rw [State.room, grown.allocated, State.room]
      omega

end Creates

end MicroTbx

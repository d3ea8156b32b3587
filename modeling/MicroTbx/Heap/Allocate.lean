import MicroTbx.Core.Memory

/-! # The heap module

`TbxHeapAllocate` bumps a counter through a fixed buffer and never frees. All
arithmetic on sizes is in `size_t`.
-/

namespace MicroTbx

open Program

variable (target : Target)

/-- The request rounded up to the word size, as the code computes it. -/
def sizeWanted (size : Nat) : Nat :=
  target.sizeT (size + (target.word - 1)) &&& target.sizeComplement (target.word - 1)

/-- Bytes of the heap buffer that are not allocated, as a `size_t` subtraction. -/
def sizeAvailable (allocated : Nat) : Nat :=
  target.sizeT (target.heapSize + 2 ^ target.sizeBits - allocated)

def tbxHeapAllocate (size : Nat) : Code Nat := do
  tbxAssert .tbxHeapAllocate .parameter (decide (0 < size))
  if 0 < size then do
    let wanted := sizeWanted target size
    enterCritical
    let state ← read
    let result ←
      (if wanted ≤ sizeAvailable target state.tbxHeapAllocated then do
        let result := target.heapBase + state.tbxHeapAllocated
        modify (·.setHeapAllocated (target.sizeT (state.tbxHeapAllocated + wanted)))
        emit (.heapTaken result wanted)
        pure result
      else pure null)
    leaveCritical
    pure result
  else pure null

def tbxHeapGetFree : Code Nat := do
  enterCritical
  let state ← read
  leaveCritical
  pure (sizeAvailable target state.tbxHeapAllocated)

/-! ## Arithmetic of one request -/

variable {target} {size allocated : Nat}

theorem sizeWanted_eq :
    sizeWanted target size = target.sizeT (size + (target.word - 1)) / target.word * target.word :=
  target.and_complement_word (target.sizeT_lt _)

theorem sizeWanted_of_fits (hfits : target.Fits size) :
    sizeWanted target size = target.roundUp size := by
  rw [sizeWanted_eq, target.sizeT_of_lt hfits, Target.roundUp]

/-- A request whose round-up leaves `size_t` is treated as a request for
nothing. -/
theorem sizeWanted_of_not_fits (hsize : size < 2 ^ target.sizeBits)
    (hwraps : ¬ target.Fits size) : sizeWanted target size = 0 := by
  have hword := target.word_pos
  have hwords := target.eight_words_le
  unfold Target.Fits at hwraps
  have hsmall : target.sizeT (size + (target.word - 1)) < target.word := by
    rw [Target.sizeT, Nat.mod_eq_sub_mod (by omega), Nat.mod_eq_of_lt (by omega)]
    omega
  rw [sizeWanted_eq, Nat.div_eq_of_lt hsmall, Nat.zero_mul]

theorem sizeAvailable_eq (hle : allocated ≤ target.heapSize) :
    sizeAvailable target allocated = target.heapSize - allocated := by
  have hlt := target.heapSize_lt
  rw [sizeAvailable, Target.sizeT, show target.heapSize + 2 ^ target.sizeBits - allocated =
    target.heapSize - allocated + 2 ^ target.sizeBits by omega, Nat.add_mod_right,
    Nat.mod_eq_of_lt (by omega)]

/-- A rounded request that leaves `size_t` is larger than any heap. -/
theorem heapSize_lt_roundUp {size : Nat} (hwraps : ¬ target.Fits size) :
    target.heapSize < target.roundUp size := by
  have hdvd : target.word ∣ 2 ^ target.sizeBits :=
    Nat.pow_dvd_pow 2 (by have := target.words_fit; omega)
  unfold Target.Fits at hwraps
  have hdiv := Nat.div_le_div_right (c := target.word) (Nat.not_lt.mp hwraps)
  calc target.heapSize < 2 ^ target.sizeBits := target.heapSize_lt
    _ = 2 ^ target.sizeBits / target.word * target.word := (Nat.div_mul_cancel hdvd).symm
    _ ≤ target.roundUp size := Nat.mul_le_mul_right _ hdiv

/-! ## Specification -/

/-- The heap after a successful request. -/
@[simps! -fullyApplied]
def State.takeHeap (state : State) (target : Target) (bytes : Nat) : State :=
  (state.setHeapAllocated (state.tbxHeapAllocated + bytes)).emit
    (.heapTaken (target.heapBase + state.tbxHeapAllocated) bytes)

variable {state : State}

theorem tbxHeapAllocate_zero :
    (tbxHeapAllocate target 0).Evaluates state null
      (state.emit (.assertion .tbxHeapAllocate .parameter)) := by
  intro depth
  simp [tbxHeapAllocate]

/-- Without enough room the request fails and leaves the heap as it was. -/
theorem tbxHeapAllocate_full (hsize : 0 < size) (hle : state.tbxHeapAllocated ≤ target.heapSize)
    (hfull : target.heapSize - state.tbxHeapAllocated < sizeWanted target size) :
    (tbxHeapAllocate target size).Evaluates state null state := by
  intro depth
  simp [tbxHeapAllocate, hsize, sizeAvailable_eq hle, Nat.not_le.mpr hfull]

/-- With enough room the request returns the first free address. -/
theorem tbxHeapAllocate_room (hsize : 0 < size) (hle : state.tbxHeapAllocated ≤ target.heapSize)
    (hroom : sizeWanted target size ≤ target.heapSize - state.tbxHeapAllocated) :
    (tbxHeapAllocate target size).Evaluates state (target.heapBase + state.tbxHeapAllocated)
      (state.takeHeap target (sizeWanted target size)) := by
  intro depth
  have hlt := target.heapSize_lt
  have hsum : target.sizeT (state.tbxHeapAllocated + sizeWanted target size) =
      state.tbxHeapAllocated + sizeWanted target size := target.sizeT_of_lt (by omega)
  simp [tbxHeapAllocate, hsize, sizeAvailable_eq hle, hroom, hsum, State.takeHeap]

theorem tbxHeapGetFree_spec (hle : state.tbxHeapAllocated ≤ target.heapSize) :
    (tbxHeapGetFree target).Evaluates state (target.heapSize - state.tbxHeapAllocated) state := by
  intro depth
  simp [tbxHeapGetFree, sizeAvailable_eq hle]

end MicroTbx

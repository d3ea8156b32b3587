import MicroTbx.Heap.Allocate
import Mathlib.Algebra.BigOperators.Group.List.Basic

/-! # Safety of the heap over sequences of requests

A run records every request with its result and the states around it. The
heap is safe when the granted ranges lie inside the buffer, are aligned and
pairwise apart, the reported free space is exact, and a request is refused
exactly when it is empty or too large. This holds of a run exactly when none
of its requests rounds up past the range of `size_t`.
-/

namespace MicroTbx

open Program

/-- One call of `TbxHeapAllocate`. -/
structure HeapCall where
  size : Nat
  result : Nat
  before : State
  after : State

namespace HeapCall

/-- Bytes a call obtained: nothing when it was refused. -/
def granted (target : Target) (call : HeapCall) : Nat :=
  if call.result = null then 0 else target.roundUp call.size

/-- Two calls do not share a byte of the ranges they obtained. -/
def Apart (target : Target) (call other : HeapCall) : Prop :=
  call.result ≠ null → other.result ≠ null →
    call.result + target.roundUp call.size ≤ other.result ∨
      other.result + target.roundUp other.size ≤ call.result

/-- The range of a successful call lies in the heap buffer, holds the bytes
asked for and starts at a word-aligned offset. -/
def Inside (target : Target) (call : HeapCall) : Prop :=
  call.result ≠ null →
    target.heapBase ≤ call.result ∧ target.word ∣ call.result - target.heapBase ∧
      call.size ≤ target.roundUp call.size ∧
      call.result + target.roundUp call.size ≤ target.heapBase + target.heapSize

/-- The call is refused exactly when it asks for nothing or for more than is
free, and a refusal changes neither the counter nor the memory. -/
def Exact (target : Target) (call : HeapCall) : Prop :=
  (call.result = null ↔ call.size = 0 ∨
    target.heapSize - call.before.tbxHeapAllocated < target.roundUp call.size) ∧
  (call.result = null → call.after.tbxHeapAllocated = call.before.tbxHeapAllocated ∧
    call.after.mem = call.before.mem)

end HeapCall

variable {target : Target} {calls : List HeapCall} {state : State}

/-- A sequence of requests from program start, the newest first. -/
inductive HeapRun (target : Target) : List HeapCall → State → Prop
  | start : HeapRun target [] State.initial
  | call {calls : List HeapCall} {before after : State} {size : Nat} {result : Nat}
      (prior : HeapRun target calls before) (isSize : size < 2 ^ target.sizeBits)
      (returned : (tbxHeapAllocate target size).run 0 before = .done result 0 after) :
      HeapRun target (⟨size, result, before, after⟩ :: calls) after

/-- Bytes obtained by all calls of a run. -/
def grantedBytes (target : Target) (calls : List HeapCall) : Nat :=
  (calls.map (HeapCall.granted target)).sum

/-- What the heap promises of a run that ends in a state. -/
structure HeapSafe (target : Target) (calls : List HeapCall) (state : State) : Prop where
  inside : ∀ call ∈ calls, call.Inside target
  apart : calls.Pairwise (HeapCall.Apart target)
  exact : ∀ call ∈ calls, call.Exact target
  noUnderflow : grantedBytes target calls ≤ target.heapSize
  free : (tbxHeapGetFree target).Evaluates state
    (target.heapSize - grantedBytes target calls) state
  answers : ∀ size < 2 ^ target.sizeBits, ∃ result after,
    (tbxHeapAllocate target size).run 0 state = .done result 0 after

theorem HeapRun.allocated_le (run : HeapRun target calls state) :
    state.tbxHeapAllocated ≤ target.heapSize := by
  induction run with
  | start => exact Nat.zero_le _
  | @call calls before after size result prior isSize returned ih =>
      rcases Nat.eq_zero_or_pos size with rfl | hpos
      · obtain ⟨_, _, rfl⟩ := tbxHeapAllocate_zero.of_run returned
        exact ih
      rcases Nat.lt_or_ge (target.heapSize - before.tbxHeapAllocated) (sizeWanted target size)
        with hfull | hroom
      · obtain ⟨_, _, rfl⟩ := (tbxHeapAllocate_full hpos ih hfull).of_run returned
        exact ih
      · obtain ⟨_, _, rfl⟩ := (tbxHeapAllocate_room hpos ih hroom).of_run returned
        simp only [State.takeHeap_tbxHeapAllocated]
        omega

/-- Every request is answered. -/
theorem tbxHeapAllocate_answers (hle : state.tbxHeapAllocated ≤ target.heapSize) (size : Nat) :
    ∃ result after, (tbxHeapAllocate target size).run 0 state = .done result 0 after := by
  rcases Nat.eq_zero_or_pos size with rfl | hpos
  · obtain ⟨result, after, hrun, _⟩ := (@tbxHeapAllocate_zero target state).run 0
    exact ⟨result, after, hrun⟩
  rcases Nat.lt_or_ge (target.heapSize - state.tbxHeapAllocated) (sizeWanted target size)
    with hfull | hroom
  · obtain ⟨result, after, hrun, _⟩ := (tbxHeapAllocate_full hpos hle hfull).run 0
    exact ⟨result, after, hrun⟩
  · obtain ⟨result, after, hrun, _⟩ := (tbxHeapAllocate_room hpos hle hroom).run 0
    exact ⟨result, after, hrun⟩

/-- What one call does when its request fits: it is refused and changes
nothing, or it takes the next rounded range. -/
theorem tbxHeapAllocate_cases {size : Nat} {result : Nat} {after : State}
    (hle : state.tbxHeapAllocated ≤ target.heapSize) (hfits : target.Fits size)
    (hreturned : (tbxHeapAllocate target size).run 0 state = .done result 0 after) :
    (result = null ∧ after.tbxHeapAllocated = state.tbxHeapAllocated ∧ after.mem = state.mem ∧
      (size = 0 ∨ target.heapSize - state.tbxHeapAllocated < target.roundUp size)) ∨
    (result = target.heapBase + state.tbxHeapAllocated ∧ 0 < size ∧
      target.roundUp size ≤ target.heapSize - state.tbxHeapAllocated ∧
      after = state.takeHeap target (target.roundUp size)) := by
  rcases Nat.eq_zero_or_pos size with rfl | hpos
  · obtain ⟨_, rfl, rfl⟩ := tbxHeapAllocate_zero.of_run hreturned
    exact .inl ⟨rfl, rfl, rfl, .inl rfl⟩
  have hwanted := sizeWanted_of_fits hfits
  rcases Nat.lt_or_ge (target.heapSize - state.tbxHeapAllocated) (target.roundUp size)
    with hfull | hroom
  · obtain ⟨_, rfl, rfl⟩ :=
      (tbxHeapAllocate_full hpos hle (by rwa [hwanted])).of_run hreturned
    exact .inl ⟨rfl, rfl, rfl, .inr hfull⟩
  · obtain ⟨_, rfl, rfl⟩ :=
      (tbxHeapAllocate_room hpos hle (by rwa [hwanted])).of_run hreturned
    exact .inr ⟨rfl, hpos, hroom, by rw [hwanted]⟩

/-- The ranges of a run of fitting requests: all below the counter, which is
the number of bytes granted and a multiple of the word size. -/
structure HeapLayout (target : Target) (calls : List HeapCall) (state : State) : Prop where
  aligned : target.word ∣ state.tbxHeapAllocated
  counted : state.tbxHeapAllocated = grantedBytes target calls
  below : ∀ call ∈ calls, call.result ≠ null →
    call.result + target.roundUp call.size ≤ target.heapBase + state.tbxHeapAllocated

@[simp] theorem grantedBytes_cons (call : HeapCall) :
    grantedBytes target (call :: calls) = call.granted target + grantedBytes target calls := by
  simp [grantedBytes]

/-- The counter decides what is reported and answered next. -/
theorem HeapLayout.safe (hlayout : HeapLayout target calls state)
    (hle : state.tbxHeapAllocated ≤ target.heapSize)
    (hinside : ∀ call ∈ calls, call.Inside target)
    (hapart : calls.Pairwise (HeapCall.Apart target))
    (hexact : ∀ call ∈ calls, call.Exact target) : HeapSafe target calls state where
  inside := hinside
  apart := hapart
  exact := hexact
  noUnderflow := hlayout.counted ▸ hle
  free := hlayout.counted ▸ tbxHeapGetFree_spec hle
  answers := fun size _ => tbxHeapAllocate_answers hle size

/-- A refusal adds no range. -/
theorem HeapSafe.refuse {call : HeapCall} (hsafe : HeapSafe target calls call.before)
    (hlayout : HeapLayout target calls call.before)
    (hle : call.after.tbxHeapAllocated ≤ target.heapSize) (hnull : call.result = null)
    (hsame : call.after.tbxHeapAllocated = call.before.tbxHeapAllocated)
    (hexact : call.Exact target) :
    HeapSafe target (call :: calls) call.after ∧
      HeapLayout target (call :: calls) call.after := by
  have hlayoutAfter : HeapLayout target (call :: calls) call.after := by
    refine ⟨hsame ▸ hlayout.aligned, ?_, ?_⟩
    · simp [hsame, hlayout.counted, HeapCall.granted, hnull]
    · rw [List.forall_mem_cons, hsame]
      exact ⟨fun hne => absurd hnull hne, hlayout.below⟩
  refine ⟨hlayoutAfter.safe hle ?_ ?_ ?_, hlayoutAfter⟩
  · rw [List.forall_mem_cons]
    exact ⟨fun hne => absurd hnull hne, hsafe.inside⟩
  · exact List.pairwise_cons.mpr ⟨fun other _ hne => absurd hnull hne, hsafe.apart⟩
  · rw [List.forall_mem_cons]
    exact ⟨hexact, hsafe.exact⟩

/-- A success takes the range that starts at the counter. -/
theorem HeapSafe.take {call : HeapCall} (hsafe : HeapSafe target calls call.before)
    (hlayout : HeapLayout target calls call.before)
    (hle : call.after.tbxHeapAllocated ≤ target.heapSize)
    (hresult : call.result = target.heapBase + call.before.tbxHeapAllocated)
    (htaken : call.after.tbxHeapAllocated =
      call.before.tbxHeapAllocated + target.roundUp call.size)
    (hexact : call.Exact target) :
    HeapSafe target (call :: calls) call.after ∧
      HeapLayout target (call :: calls) call.after := by
  have hbase := target.heapBase_pos
  have hne : call.result ≠ null := by
    simp only [null_eq]
    omega
  have hlayoutAfter : HeapLayout target (call :: calls) call.after := by
    refine ⟨?_, ?_, ?_⟩
    · rw [htaken]
      exact Nat.dvd_add hlayout.aligned (target.word_dvd_roundUp _)
    · rw [grantedBytes_cons, HeapCall.granted, if_neg hne, ← hlayout.counted]
      omega
    · rw [List.forall_mem_cons]
      refine ⟨fun _ => by omega, ?_⟩
      intro other hother hotherNe
      have := hlayout.below other hother hotherNe
      omega
  refine ⟨hlayoutAfter.safe hle ?_ ?_ ?_, hlayoutAfter⟩
  · rw [List.forall_mem_cons]
    refine ⟨fun _ => ⟨by omega, ?_, target.le_roundUp _, by omega⟩, hsafe.inside⟩
    rw [hresult, Nat.add_sub_cancel_left]
    exact hlayout.aligned
  · refine List.pairwise_cons.mpr ⟨?_, hsafe.apart⟩
    intro other hother _ hotherNe
    have := hlayout.below other hother hotherNe
    exact .inr (by omega)
  · rw [List.forall_mem_cons]
    exact ⟨hexact, hsafe.exact⟩

theorem HeapRun.safe (run : HeapRun target calls state)
    (hfits : ∀ call ∈ calls, target.Fits call.size) :
    HeapSafe target calls state ∧ HeapLayout target calls state := by
  induction run with
  | start =>
      have hlayout : HeapLayout target [] State.initial := ⟨⟨0, rfl⟩, rfl, by simp⟩
      exact ⟨hlayout.safe (Nat.zero_le _) (by simp) .nil (by simp), hlayout⟩
  | @call calls before after size result prior isSize returned ih =>
      obtain ⟨hsafe, hlayout⟩ := ih fun call hcall => hfits call (List.mem_cons_of_mem _ hcall)
      have hle := (HeapRun.call prior isSize returned).allocated_le
      have hfit : target.Fits size := hfits _ List.mem_cons_self
      rcases tbxHeapAllocate_cases prior.allocated_le hfit returned with
        ⟨hnull, hsame, hmem, hrefused⟩ | ⟨hresult, hpos, hroom, htaken⟩
      · exact @HeapSafe.refuse target calls ⟨size, result, before, after⟩ hsafe hlayout hle hnull
          hsame ⟨⟨fun _ => hrefused, fun _ => hnull⟩, fun _ => ⟨hsame, hmem⟩⟩
      · have hne : result ≠ null := by
          have hbase := target.heapBase_pos
          simp only [null_eq]
          omega
        apply @HeapSafe.take target calls ⟨size, result, before, after⟩ hsafe hlayout hle hresult
        · simp [htaken]
        · refine ⟨⟨fun heq => absurd heq hne, ?_⟩, fun heq => absurd heq hne⟩
          rintro (hzero | hfull)
          · exact absurd hzero (Nat.pos_iff_ne_zero.mp hpos)
          · exact absurd hroom (Nat.not_le.mpr hfull)

/-- A request that wraps is granted nothing and yet answered with a pointer. -/
theorem HeapRun.wrapped_ne_null (run : HeapRun target calls state) {call : HeapCall}
    (hcall : call ∈ calls) (hwraps : ¬ target.Fits call.size) : call.result ≠ null := by
  induction run with
  | start => simp at hcall
  | @call calls before after size result prior isSize returned ih =>
      rcases List.mem_cons.mp hcall with rfl | hearlier
      · have hpos : 0 < size := by
          by_contra hzero
          have hwords := target.eight_words_le
          have hword := target.word_pos
          simp only [Target.Fits] at hwraps
          omega
        have hwanted := sizeWanted_of_not_fits isSize hwraps
        have hroom := (tbxHeapAllocate_room hpos prior.allocated_le
          (by rw [hwanted]; exact Nat.zero_le _)).of_run returned
        have hbase := target.heapBase_pos
        have hresult : result = _ := hroom.2.1
        simp only [null_eq]
        omega
      · exact ih hearlier

/-- The heap keeps its promise on exactly the runs in which no request rounds
up past the range of `size_t`. -/
theorem heapSafe_iff_fits (run : HeapRun target calls state) :
    HeapSafe target calls state ↔ ∀ call ∈ calls, target.Fits call.size := by
  constructor
  · intro hsafe call hcall
    by_contra hwraps
    apply run.wrapped_ne_null hcall hwraps
    apply (hsafe.exact call hcall).1.mpr
    exact .inr (lt_of_le_of_lt (Nat.sub_le ..) (heapSize_lt_roundUp hwraps))
  · exact fun hfits => (run.safe hfits).1

/-- Four requests are granted, the first of them rounded up. In between one is
refused because the 8 bytes left do not hold it, and an empty one is. -/
theorem heapSafe_iff_fits_refusals : ∃ calls state, HeapRun linux64 calls state ∧
    calls.map HeapCall.size = [8, 0, 9, 2000, 24, 13] ∧
    calls.map HeapCall.result = [6136, null, null, 4136, 4112, 4096] ∧
    HeapSafe linux64 calls state := by
  have hgranted : HeapRun linux64 _ _ :=
    .call (.call (.call .start (show 13 < 2 ^ linux64.sizeBits by decide) rfl)
      (show 24 < 2 ^ linux64.sizeBits by decide) rfl)
      (show 2000 < 2 ^ linux64.sizeBits by decide) rfl
  have hrun : HeapRun linux64 _ _ :=
    .call (.call (.call hgranted (show 9 < 2 ^ linux64.sizeBits by decide) rfl)
      (show 0 < 2 ^ linux64.sizeBits by decide) rfl)
      (show 8 < 2 ^ linux64.sizeBits by decide) rfl
  have hfits : ∀ size ∈ [8, 0, 9, 2000, 24, 13], linux64.Fits size := by decide
  exact ⟨_, _, hrun, rfl, rfl, (heapSafe_iff_fits hrun).mpr (List.forall_mem_map.mp hfits)⟩

/-- One request for the largest `size_t` value is answered with a pointer
although the heap has no room for it. -/
theorem heapSafe_fails_at_sizeMax :
    ∃ calls state, HeapRun linux64 calls state ∧ calls.map HeapCall.size = [2 ^ 64 - 1] ∧
      calls.map HeapCall.result = [4096] ∧ ¬ HeapSafe linux64 calls state := by
  have hrun : HeapRun linux64 _ _ := .call .start
    (show 2 ^ 64 - 1 < 2 ^ linux64.sizeBits by decide) rfl
  refine ⟨_, _, hrun, rfl, rfl, ?_⟩
  intro hsafe
  have hexact := (hsafe.exact _ List.mem_cons_self).1.mpr (.inr (by decide))
  exact absurd hexact (by decide)

end MicroTbx

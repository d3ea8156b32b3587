import MicroTbx.Foundation.Lfsr
import MicroTbx.Random.Generator

/-! # The registers of the generator

A number is two draws, and a draw shifts the 32-bit register twice and the
31-bit register once. In every run the registers are therefore the iterated
shifts of the seeds that the first number asked for. The seeds are never zero,
but the second one may be the value that the first shift turns into zero, and
then the 31-bit register stays zero.
-/

namespace MicroTbx

open Program

variable {state after : RandomState} {calls : List RandomCall}

/-! ## What the functions do -/

/-- The state after one draw of 16 bits. -/
def RandomState.draw (state : RandomState) : RandomState :=
  { state with
    tbxRandomNumberLFSR32 :=
      Lfsr.shift tbxRandomLfsr32Polymask
        (Lfsr.shift tbxRandomLfsr32Polymask state.tbxRandomNumberLFSR32)
    tbxRandomNumberLFSR31 := Lfsr.shift tbxRandomLfsr31Polymask state.tbxRandomNumberLFSR31 }

/-- The two seeds a handler leads to, from the number of calls it had. -/
def seedsOf (handler : Option SeedInitHandler) (handlerCalls : Nat) : BitVec 32 × BitVec 32 :=
  match handler with
  | none => (0xABCDE, 0x23456789)
  | some handler =>
      (if handler handlerCalls = 0 then 0xABCDE else handler handlerCalls,
        if handler (handlerCalls + 1) = 0 then 0x23456789 else handler (handlerCalls + 1))

/-- The state after seeding. -/
def RandomState.seed (state : RandomState) : RandomState :=
  { state with
    tbxRandomNumberLFSR32 := (seedsOf state.tbxRandomSeedInitHandler state.handlerCalls).1
    tbxRandomNumberLFSR31 := (seedsOf state.tbxRandomSeedInitHandler state.handlerCalls).2
    handlerCalls := state.handlerCalls + if state.tbxRandomSeedInitHandler.isSome then 2 else 0 }

/-- The state in which a number is drawn: seeded, if it was not before. -/
def RandomState.ready (state : RandomState) : RandomState :=
  if state.seeded = false then { state.seed with seeded := true } else state

@[simp] theorem LfsrPointer.get_set (lfsr : LfsrPointer) (value : BitVec 32) :
    lfsr.get (lfsr.set value state) = value := by
  cases lfsr <;> rfl

@[simp] theorem LfsrPointer.set_set (lfsr : LfsrPointer) (value other : BitVec 32) :
    lfsr.set value (lfsr.set other state) = lfsr.set value state := by
  cases lfsr <;> rfl

theorem tbxRandomShiftLFSR_spec (lfsr : LfsrPointer) (polymask : BitVec 32) :
    (tbxRandomShiftLFSR (some lfsr) polymask).Evaluates state (Lfsr.shift polymask (lfsr.get state))
      (lfsr.set (Lfsr.shift polymask (lfsr.get state)) state) := by
  intro depth
  by_cases hfeedback : lfsr.get state &&& 1#32 = 1#32
  · simp [tbxRandomShiftLFSR, randomAssert, Lfsr.shift, hfeedback]
  · simp [tbxRandomShiftLFSR, randomAssert, Lfsr.shift, hfeedback]

theorem tbxRandomNumber16BitGet_spec :
    tbxRandomNumber16BitGet.Returns state fun _ after => after = state.draw := by
  intro depth
  simp only [tbxRandomNumber16BitGet, wp_bind, wp_enterCritical,
    (tbxRandomShiftLFSR_spec _ _).wp_iff, wp_leaveCritical, wp_pure]
  exact ⟨trivial, rfl⟩

theorem tbxRandomInitLFSRs_spec : tbxRandomInitLFSRs.Evaluates state () state.seed := by
  intro depth
  cases hhandler : state.tbxRandomSeedInitHandler with
  | none => simp [tbxRandomInitLFSRs, RandomState.seed, seedsOf, hhandler]
  | some handler =>
      simp [tbxRandomInitLFSRs, callSeedInitHandler, RandomState.seed, seedsOf, hhandler]

/-- A number is two draws. -/
theorem tbxRandomNumberGet_spec :
    tbxRandomNumberGet.Returns state fun _ after => after = state.ready.draw.draw := by
  have hdraws : ∀ ready : RandomState, Program.Returns (do
      let high ← tbxRandomNumber16BitGet
      let low ← tbxRandomNumber16BitGet
      return high.setWidth 32 <<< 16 ||| low.setWidth 32) ready fun _ after =>
        after = ready.draw.draw := by
    intro ready
    apply tbxRandomNumber16BitGet_spec.bind
    rintro high _ rfl
    apply tbxRandomNumber16BitGet_spec.bind
    rintro low _ rfl
    exact (returns_pure _).mpr rfl
  intro depth
  rw [tbxRandomNumberGet, wp_bind, wp_read, RandomState.ready]
  split
  · rw [wp_bind, tbxRandomInitLFSRs_spec.wp_iff, wp_bind, wp_modify]
    exact hdraws _ depth
  · exact hdraws state depth

/-! ## Runs -/

/-- The handler that calls have registered, the newest call first. -/
def registered : List RandomCall → Option SeedInitHandler
  | [] => none
  | .setSeedInitHandler (some handler) :: _ => some handler
  | .setSeedInitHandler none :: earlier => registered earlier
  | .numberGet :: earlier => registered earlier

/-- How many numbers calls have drawn. -/
def drawn : List RandomCall → Nat
  | [] => 0
  | .numberGet :: earlier => drawn earlier + 1
  | .setSeedInitHandler _ :: earlier => drawn earlier

/-- The handler that was registered when the first number was drawn. -/
def seedHandler : List RandomCall → Option SeedInitHandler
  | [] => none
  | .numberGet :: earlier => if drawn earlier = 0 then registered earlier else seedHandler earlier
  | .setSeedInitHandler _ :: earlier => seedHandler earlier

/-- The registers hold what the calls made of the seeds. -/
structure Generates (calls : List RandomCall) (state : RandomState) : Prop where
  handler : state.tbxRandomSeedInitHandler = registered calls
  seeded : state.seeded = true ↔ 0 < drawn calls
  handlerCalls : drawn calls = 0 → state.handlerCalls = 0
  lfsr32 : state.tbxRandomNumberLFSR32 = if drawn calls = 0 then 0 else
    (Lfsr.shift tbxRandomLfsr32Polymask)^[4 * drawn calls] (seedsOf (seedHandler calls) 0).1
  lfsr31 : state.tbxRandomNumberLFSR31 = if drawn calls = 0 then 0 else
    (Lfsr.shift tbxRandomLfsr31Polymask)^[2 * drawn calls] (seedsOf (seedHandler calls) 0).2

theorem Generates.initial : Generates [] .initial where
  handler := rfl
  seeded := by simp [RandomState.initial, drawn]
  handlerCalls := fun _ => rfl
  lfsr32 := rfl
  lfsr31 := rfl

/-- A number drawn shifts both registers on. -/
theorem Generates.numberGet (hgenerates : Generates calls state) :
    Generates (.numberGet :: calls) state.ready.draw.draw := by
  by_cases hfirst : drawn calls = 0
  · have hseeded : state.seeded = false := by
      rw [← Bool.not_eq_true, hgenerates.seeded, hfirst]
      exact Nat.lt_irrefl 0
    have hready : state.ready = { state.seed with seeded := true } := if_pos hseeded
    have hhandler : seedHandler (.numberGet :: calls) = registered calls := if_pos hfirst
    have hdrawn : drawn (.numberGet :: calls) = 1 := by rw [drawn, hfirst]
    refine ⟨hready ▸ hgenerates.handler, ?_, ?_, ?_, ?_⟩
    · rw [hdrawn, hready]
      exact ⟨fun _ => Nat.one_pos, fun _ => rfl⟩
    · rw [hdrawn]
      exact fun hnone => absurd hnone Nat.one_ne_zero
    · rw [if_neg (hdrawn ▸ Nat.one_ne_zero), hdrawn, hhandler, hready, ← hgenerates.handler,
        ← hgenerates.handlerCalls hfirst]
      rfl
    · rw [if_neg (hdrawn ▸ Nat.one_ne_zero), hdrawn, hhandler, hready, ← hgenerates.handler,
        ← hgenerates.handlerCalls hfirst]
      rfl
  · have hseeded : state.seeded = true := hgenerates.seeded.mpr (Nat.pos_of_ne_zero hfirst)
    have hready : state.ready = state := if_neg (by rw [hseeded]; decide)
    have hhandler : seedHandler (.numberGet :: calls) = seedHandler calls := if_neg hfirst
    have hlfsr32 := hgenerates.lfsr32
    have hlfsr31 := hgenerates.lfsr31
    rw [if_neg hfirst] at hlfsr32 hlfsr31
    have hmore : drawn (.numberGet :: calls) ≠ 0 := Nat.succ_ne_zero _
    rw [hready]
    refine ⟨hgenerates.handler, ?_, fun hnone => absurd hnone hmore, ?_, ?_⟩
    · exact ⟨fun _ => Nat.succ_pos _, fun _ => hseeded⟩
    · rw [if_neg hmore, hhandler, drawn, Nat.mul_succ, Nat.add_comm (4 * drawn calls),
        Function.iterate_add_apply, ← hlfsr32]
      rfl
    · rw [if_neg hmore, hhandler, drawn, Nat.mul_succ, Nat.add_comm (2 * drawn calls),
        Function.iterate_add_apply, ← hlfsr31]
      rfl

/-- Registering a handler leaves the registers alone. -/
theorem Generates.setSeedInitHandler (hgenerates : Generates calls state)
    (seedInitHandler : Option SeedInitHandler) :
    (tbxRandomSetSeedInitHandler seedInitHandler).Returns state fun _ after =>
      Generates (.setSeedInitHandler seedInitHandler :: calls) after := by
  obtain ⟨hhandler, hseeded, hcalls, hlfsr32, hlfsr31⟩ := hgenerates
  intro depth
  cases seedInitHandler with
  | none => exact ⟨rfl, hhandler, hseeded, hcalls, hlfsr32, hlfsr31⟩
  | some handler => exact ⟨rfl, rfl, hseeded, hcalls, hlfsr32, hlfsr31⟩

abbrev RandomExchange := Exchange RandomState RandomCall (Option (BitVec 32))

variable {history : List RandomExchange}

theorem Generates.of_run (hrun : randomInterface.Run history state) :
    Generates (history.map Exchange.request) state := by
  refine @Interface.Run.invariant _ _ _ _ randomInterface history state
    (fun history => Generates (history.map Exchange.request)) Generates.initial ?_ hrun
  intro history before request hgenerates _
  cases request with
  | numberGet =>
      apply tbxRandomNumberGet_spec.bind
      rintro number _ rfl
      exact (returns_pure _).mpr hgenerates.numberGet
  | setSeedInitHandler seedInitHandler =>
      apply (hgenerates.setSeedInitHandler seedInitHandler).bind
      intro _ after hafter
      exact (returns_pure _).mpr hafter

/-! ## Registers that hold zero -/

theorem seedsOf_ne_zero (handler : Option SeedInitHandler) (handlerCalls : Nat) :
    (seedsOf handler handlerCalls).1 ≠ 0 ∧ (seedsOf handler handlerCalls).2 ≠ 0 := by
  cases handler with
  | none => simp [seedsOf]
  | some handler =>
      simp only [seedsOf]
      constructor
      · split
        · decide
        · assumption
      · split
        · decide
        · assumption

theorem iterate_lfsr32_ne_zero {seed : BitVec 32} (hseed : seed ≠ 0) (count : Nat) :
    (Lfsr.shift tbxRandomLfsr32Polymask)^[count + 1] seed ≠ 0 := by
  have hbits : seed.toNat < 2 ^ 32 := seed.isLt
  have hzero := @Lfsr.iterate_shift_eq_zero_iff 31 tbxRandomLfsr32Polymask seed 32
    (by decide) (by decide) (by omega) count
  rw [Ne, hzero, not_or]
  refine ⟨hseed, ?_⟩
  have hmask : tbxRandomLfsr32Polymask.toNat = 0xB4BCD35C := rfl
  omega

/-- The 31-bit register has a predecessor of zero that a seed can hold. -/
theorem iterate_lfsr31_eq_zero_iff {seed : BitVec 32} (hseed : seed ≠ 0) (count : Nat) :
    (Lfsr.shift tbxRandomLfsr31Polymask)^[count + 1] seed = 0 ↔ seed = 0xF4B785C7 := by
  have hzero := @Lfsr.iterate_shift_eq_zero_iff 31 tbxRandomLfsr31Polymask seed 31
    (by decide) (by decide) seed.isLt count
  rw [hzero, or_iff_right hseed, ← BitVec.toNat_inj]
  rfl

/-- Both registers hold a non-zero value exactly when a number was drawn and
the handler that seeded the generator did not return the one bad value. -/
theorem random_registers_ne_zero_iff (hrun : randomInterface.Run history state) :
    (state.tbxRandomNumberLFSR32 ≠ 0 ∧ state.tbxRandomNumberLFSR31 ≠ 0) ↔
      0 < drawn (history.map Exchange.request) ∧
        ∀ handler ∈ seedHandler (history.map Exchange.request), handler 1 ≠ 0xF4B785C7 := by
  have hgenerates := Generates.of_run hrun
  generalize history.map Exchange.request = calls at hgenerates ⊢
  cases hdrawn : drawn calls with
  | zero => simp [hgenerates.lfsr32, hdrawn]
  | succ count =>
      obtain ⟨hseed32, hseed31⟩ := seedsOf_ne_zero (seedHandler calls) 0
      have hlfsr32 := hgenerates.lfsr32
      have hlfsr31 := hgenerates.lfsr31
      rw [hdrawn, if_neg (Nat.succ_ne_zero count), Nat.mul_succ] at hlfsr32 hlfsr31
      have hiff : state.tbxRandomNumberLFSR31 ≠ 0 ↔
          (seedsOf (seedHandler calls) 0).2 ≠ 0xF4B785C7 := by
        rw [hlfsr31]
        exact not_congr (iterate_lfsr31_eq_zero_iff hseed31 _)
      rw [hiff, and_iff_right (hlfsr32 ▸ iterate_lfsr32_ne_zero hseed32 _),
        and_iff_right (Nat.succ_pos count)]
      cases seedHandler calls with
      | none => simp [seedsOf]
      | some handler =>
          simp only [seedsOf, Option.mem_def, Option.some.injEq, forall_eq', Nat.zero_add]
          split
          · next hzero => simp [hzero]
          · rfl

/-- The application's handler answers zero first, so one seed is the default and
the other one its own. Numbers are drawn before and after a handler with the bad
value takes its place, which is too late to matter. -/
def seededCalls : List RandomCall :=
  [.numberGet, .numberGet, .setSeedInitHandler (some fun _ => 0xF4B785C7), .numberGet,
    .setSeedInitHandler none, .setSeedInitHandler (some fun calls => BitVec.ofNat 32 (17 * calls))]

theorem random_registers_ne_zero_seeded : ∃ (history : List RandomExchange)
    (state : RandomState), randomInterface.Run history state ∧
      history.map Exchange.request = seededCalls ∧
      state.tbxRandomNumberLFSR32 ≠ 0 ∧ state.tbxRandomNumberLFSR31 ≠ 0 := by
  have hexecutes : (randomInterface.execute seededCalls).isSome = true := by
    decide +kernel
  obtain ⟨history, state, hrun, hrequests⟩ := Interface.execute_isSome hexecutes
  refine ⟨history, state, hrun, hrequests, (random_registers_ne_zero_iff hrun).mpr ?_⟩
  rw [hrequests]
  have hhandler : seedHandler seededCalls = some fun calls => BitVec.ofNat 32 (17 * calls) := rfl
  refine ⟨by decide, fun handler hseeded => ?_⟩
  rw [hhandler] at hseeded
  cases hseeded
  decide

/-- A handler whose answer is the predecessor of zero. -/
def stuckCalls : List RandomCall := [.numberGet, .setSeedInitHandler (some fun _ => 0xF4B785C7)]

/-- The first number drawn already leaves the 31-bit register at zero. -/
theorem random_register_stuck : ∃ (history : List RandomExchange) (state : RandomState),
    randomInterface.Run history state ∧ history.map Exchange.request = stuckCalls ∧
      ¬ (state.tbxRandomNumberLFSR32 ≠ 0 ∧ state.tbxRandomNumberLFSR31 ≠ 0) := by
  have hresult : (randomInterface.execute stuckCalls).map (fun outcome =>
      outcome.2.tbxRandomNumberLFSR31) = some 0 := by
    decide +kernel
  obtain ⟨history, state, hrun, hrequests, hzero⟩ := Interface.execute_map hresult
  exact ⟨history, state, hrun, hrequests, fun hne => hne.2 hzero⟩

end MicroTbx

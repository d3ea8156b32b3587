import MicroTbx.Foundation.Program

/-! # Sections as steps

Where another context cannot come in between, an outermost critical section is
one step. A program is taken apart into such steps and the single actions
outside of sections. A call that consists of one section does in one step what
it does when it is executed alone, so its specification tells of the step.
-/

namespace Program

variable {State Fault Result Next : Type}

/-! ## Nesting -/

/-- On every path the program leaves only sections that it entered, beside the
given number of sections it was entered in, and leaves those before it
returns. -/
def Balanced : Nat → Program State Fault Result → Prop
  | depth, .ret _ => depth = 0
  | _, .fault _ => True
  | depth, .step _ next => ∀ state, (next state).Balanced depth
  | depth, .enter next => next.Balanced (depth + 1)
  | 0, .leave _ => False
  | depth + 1, .leave next => next.Balanced depth

/-- On every path the program is inside the outermost section, after entering
so many more, and returns when it has left it. -/
def Closes : Nat → Program State Fault Result → Prop
  | _, .ret _ => False
  | _, .fault _ => True
  | depth, .step _ next => ∀ state, (next state).Closes depth
  | depth, .enter next => next.Closes (depth + 1)
  | 0, .leave next => ∃ result, next = .ret result
  | depth + 1, .leave next => next.Closes depth

/-- The program takes one step: an action, or a section. -/
def Atomic : Program State Fault Result → Prop
  | .ret _ | .fault _ | .leave _ => False
  | .step _ next => ∀ state, ∃ result, next state = .ret result
  | .enter next => next.Closes 0

/-! ## Steps -/

/-- Execute to the end of the outermost section. -/
def inside : Program State Fault Result → Nat → State →
    Option (Program State Fault Result × State)
  | .ret _, _, _ => none
  | .fault _, _, _ => none
  | .step act next, depth, state => (next state).inside depth (act state)
  | .enter next, depth, state => next.inside (depth + 1) state
  | .leave next, 0, state => some (next, state)
  | .leave next, depth + 1, state => next.inside depth state

/-- Take the next step, outside of all sections. -/
def advance : Program State Fault Result → State → Option (Program State Fault Result × State)
  | .step act next, state => some (next state, act state)
  | .enter next, state => next.inside 0 state
  | _, _ => none

variable {program : Program State Fault Result} {rest : Result → Program State Fault Next}
  {depth : Nat} {state after : State} {result : Result}

/-! ## Balanced programs -/

namespace Balanced

theorem bind {outer : Nat} (hprogram : program.Balanced depth)
    (hrest : ∀ result, (rest result).Balanced outer) :
    (program >>= rest).Balanced (depth + outer) := by
  induction program generalizing depth with
  | ret result =>
      obtain rfl : depth = 0 := hprogram
      rw [Nat.zero_add]
      exact hrest result
  | fault reason => trivial
  | step act next ih => exact fun state => ih state (hprogram state)
  | enter next ih =>
      change (next >>= rest).Balanced (depth + outer + 1)
      rw [Nat.add_right_comm]
      exact ih hprogram
  | leave next ih =>
      cases depth with
      | zero => exact hprogram.elim
      | succ depth =>
          rw [Nat.add_right_comm]
          exact ih hprogram

/-- A part of a program that is balanced by itself. -/
theorem part (hprogram : program.Balanced 0) (hrest : ∀ result, (rest result).Balanced depth) :
    (program >>= rest).Balanced depth := by
  have hbind := hprogram.bind hrest
  rwa [Nat.zero_add] at hbind

theorem ite {condition : Prop} [Decidable condition] {other : Program State Fault Result}
    (hyes : program.Balanced depth) (hno : other.Balanced depth) :
    (if condition then program else other).Balanced depth := by
  split
  · exact hyes
  · exact hno

@[simp] theorem pure (result : Result) :
    (Pure.pure result : Program State Fault Result).Balanced 0 := rfl

@[simp] theorem fault (reason : Fault) :
    (.fault reason : Program State Fault Result).Balanced depth := trivial

@[simp] theorem read : (read : Program State Fault State).Balanced 0 := fun _ => rfl

@[simp] theorem modify (act : State → State) :
    (modify act : Program State Fault Unit).Balanced 0 := fun _ => rfl

theorem enter {rest : Unit → Program State Fault Next} (hrest : (rest ()).Balanced (depth + 1)) :
    (enterCritical >>= rest).Balanced depth := hrest

theorem leave {rest : Unit → Program State Fault Next} (hrest : (rest ()).Balanced depth) :
    (leaveCritical >>= rest).Balanced (depth + 1) := hrest

theorem leave_unit : (leaveCritical : Program State Fault Unit).Balanced 1 := rfl

end Balanced

/-! ## Programs on a part of the state -/

section Lift

variable {Whole Reason : Type}

/-- A program that uses only a part of the state. -/
def lift (get : Whole → State) (set : Whole → State → Whole) (reason : Fault → Reason) :
    Program State Fault Result → Program Whole Reason Result
  | .ret result => .ret result
  | .fault cause => .fault (reason cause)
  | .step act next =>
      .step (fun whole => set whole (act (get whole))) fun whole =>
        (next (get whole)).lift get set reason
  | .enter next => .enter (next.lift get set reason)
  | .leave next => .leave (next.lift get set reason)

theorem Balanced.lift {get : Whole → State} {set : Whole → State → Whole} {reason : Fault → Reason}
    (hprogram : program.Balanced depth) : (program.lift get set reason).Balanced depth := by
  induction program generalizing depth with
  | ret result => exact hprogram
  | fault cause => trivial
  | step act next ih => exact fun whole => ih (get whole) (hprogram (get whole))
  | enter next ih => exact ih hprogram
  | leave next ih =>
      cases depth with
      | zero => exact hprogram.elim
      | succ depth => exact ih hprogram

end Lift

/-! ## Sections -/

namespace Closes

theorem bind (hprogram : program.Balanced 0) (hrest : ∀ result, (rest result).Closes depth) :
    (program >>= rest).Closes depth := by
  have hnested : ∀ inner, program.Balanced inner → (program >>= rest).Closes (inner + depth) := by
    clear hprogram
    intro inner hprogram
    induction program generalizing inner with
    | ret result =>
        obtain rfl : inner = 0 := hprogram
        rw [Nat.zero_add]
        exact hrest result
    | fault reason => trivial
    | step act next ih => exact fun state => ih state inner (hprogram state)
    | enter next ih =>
        change (next >>= rest).Closes (inner + depth + 1)
        rw [Nat.add_right_comm]
        exact ih (inner + 1) hprogram
    | leave next ih =>
        cases inner with
        | zero => exact hprogram.elim
        | succ inner =>
            rw [Nat.add_right_comm]
            exact ih inner hprogram
  have hbind := hnested 0 hprogram
  rwa [Nat.zero_add] at hbind

theorem ite {condition : Prop} [Decidable condition] {other : Program State Fault Result}
    (hyes : program.Closes depth) (hno : other.Closes depth) :
    (if condition then program else other).Closes depth := by
  split
  · exact hyes
  · exact hno

@[simp] theorem leave (result : Result) :
    (leaveCritical >>= fun _ => pure result : Program State Fault Result).Closes 0 := ⟨result, rfl⟩

@[simp] theorem leave_unit : (leaveCritical : Program State Fault Unit).Closes 0 := ⟨(), rfl⟩

theorem map (hprogram : program.Closes depth) (handed : Result → Next) :
    (program >>= fun result => pure (handed result)).Closes depth := by
  induction program generalizing depth with
  | ret result => exact hprogram
  | fault reason => trivial
  | step act next ih => exact fun state => ih state (hprogram state)
  | enter next ih => exact ih hprogram
  | leave next ih =>
      cases depth with
      | zero =>
          obtain ⟨result, rfl⟩ := hprogram
          exact ⟨handed result, rfl⟩
      | succ depth => exact ih hprogram

/-- A section that is left has been left once, and its result is returned. -/
theorem inside_eq {outer final : Nat} (hprogram : program.Closes depth)
    (hrun : program.run (depth + 1 + outer) state = .done result final after) :
    program.inside depth state = some (.ret result, after) ∧ final = outer := by
  induction program generalizing depth state with
  | ret result => exact hprogram.elim
  | fault reason => cases hrun
  | step act next ih => exact ih state (hprogram state) hrun
  | enter next ih =>
      apply ih hprogram
      rwa [Nat.add_right_comm (depth + 1) 1 outer]
  | leave next ih =>
      cases depth with
      | zero =>
          obtain ⟨value, rfl⟩ := hprogram
          rw [Nat.zero_add, Nat.add_comm] at hrun
          cases hrun
          exact ⟨rfl, rfl⟩
      | succ depth =>
          rw [Nat.add_right_comm (depth + 1) 1 outer] at hrun
          exact ih hprogram hrun

end Closes

namespace Atomic

theorem enter {rest : Unit → Program State Fault Next} (hrest : (rest ()).Closes 0) :
    (enterCritical >>= rest).Atomic := hrest

@[simp] theorem modify (act : State → State) : (modify act : Program State Fault Unit).Atomic :=
  fun _ => ⟨(), rfl⟩

theorem map (hprogram : program.Atomic) (handed : Result → Next) :
    (program >>= fun result => pure (handed result)).Atomic := by
  cases program with
  | step act next =>
      intro state
      obtain ⟨result, heq⟩ := hprogram state
      exact ⟨handed result, congrArg (· >>= fun result => pure (handed result)) heq⟩
  | enter next => exact Closes.map hprogram handed
  | _ => exact hprogram.elim

/-- A call that is one step does in it what it does when executed alone. -/
theorem advance_eq {final : Nat} (hprogram : program.Atomic)
    (hrun : program.run 0 state = .done result final after) :
    program.advance state = some (.ret result, after) := by
  cases program with
  | ret result => exact hprogram.elim
  | fault reason => exact hprogram.elim
  | leave next => exact hprogram.elim
  | step act next =>
      obtain ⟨value, hvalue⟩ := hprogram state
      rw [run, hvalue] at hrun
      cases hrun
      rw [advance, hvalue]
  | enter next =>
      have hinside : next.run (0 + 1 + 0) state = .done result final after := hrun
      exact (Closes.inside_eq hprogram hinside).1

theorem advance_of_returns {spec : Result → State → Prop} (hprogram : program.Atomic)
    (hreturns : program.Returns state spec) :
    ∃ result after, program.advance state = some (.ret result, after) ∧ spec result after := by
  obtain ⟨result, after, hrun, hspec⟩ := hreturns.run 0
  exact ⟨result, after, hprogram.advance_eq hrun, hspec⟩

end Atomic

/-! ## Steps of sequences -/

theorem inside_bind (program : Program State Fault Result)
    (rest : Result → Program State Fault Next) {left : Program State Fault Result}
    (hinside : program.inside depth state = some (left, after)) :
    (program >>= rest).inside depth state = some (left >>= rest, after) := by
  induction program generalizing depth state with
  | ret result => cases hinside
  | fault reason => cases hinside
  | step act next ih => exact ih state hinside
  | enter next ih => exact ih hinside
  | leave next ih =>
      cases depth with
      | zero =>
          cases hinside
          rfl
      | succ depth => exact ih hinside

/-- The first part of a sequence takes its steps. -/
theorem advance_bind (program : Program State Fault Result)
    (rest : Result → Program State Fault Next) {left : Program State Fault Result}
    (hadvance : program.advance state = some (left, after)) :
    (program >>= rest).advance state = some (left >>= rest, after) := by
  cases program with
  | ret result => cases hadvance
  | fault reason => cases hadvance
  | leave next => cases hadvance
  | step act next =>
      cases hadvance
      rfl
  | enter next => exact inside_bind next rest hadvance

end Program

import MicroTbx.Foundation.Program

/-! # Runs of an interface

A component is used through requests, each carried out by a program. A run is
a history of completed requests from the initial state, every request being
one that the component allows at the time it is made. What is allowed, and an
invariant of runs, may speak about the whole history.
-/

/-- One completed request. -/
structure Exchange (State Request Result : Type) where
  request : Request
  result : Result
  before : State
  after : State

/-- The requests a component offers and what they do. -/
structure Interface (State Fault Request Result : Type) where
  initial : State
  /-- What a caller may ask for in a state, after what it asked for so far. -/
  allowed : List (Exchange State Request Result) → State → Request → Prop
  perform : Request → Program State Fault Result

namespace Interface

variable {State Fault Request Result : Type}

/-- The histories of an interface, the newest exchange first, with the state
each ends in. Requests are made outside critical sections. -/
inductive Run (interface : Interface State Fault Request Result) :
    List (Exchange State Request Result) → State → Prop
  | start : Run interface [] interface.initial
  | step {history : List (Exchange State Request Result)} {before after : State}
      {request : Request} {result : Result} (prior : Run interface history before)
      (isAllowed : interface.allowed history before request)
      (returned : (interface.perform request).run 0 before = .done result 0 after) :
      Run interface (⟨request, result, before, after⟩ :: history) after

variable {interface : Interface State Fault Request Result}
  {history : List (Exchange State Request Result)} {state : State}

/-- What holds at the start and is kept by every allowed request holds of
every run. -/
theorem Run.invariant {invariant : List (Exchange State Request Result) → State → Prop}
    (hstart : invariant [] interface.initial)
    (hstep : ∀ history before request, invariant history before →
      interface.allowed history before request →
      (interface.perform request).Returns before fun result after =>
        invariant (⟨request, result, before, after⟩ :: history) after)
    (hrun : interface.Run history state) : invariant history state := by
  induction hrun with
  | start => exact hstart
  | @step history before after request result prior isAllowed returned ih =>
      exact ((hstep history before request ih isAllowed).of_run returned).2

/-- A history ends in one state. -/
theorem Run.state_unique {other : State} (hrun : interface.Run history state)
    (hother : interface.Run history other) : state = other := by
  cases hrun with
  | start =>
      cases hother
      rfl
  | step =>
      cases hother
      rfl

/-! ## Executing a run -/

section Execution

variable [∀ history state request, Decidable (interface.allowed history state request)]

variable (interface) in
/-- Make one request, if it is allowed and returns. -/
def attempt (history : List (Exchange State Request Result)) (before : State)
    (request : Request) : Option (Result × State) :=
  if interface.allowed history before request then
    match (interface.perform request).run 0 before with
    | .done result 0 after => some (result, after)
    | _ => none
  else none

variable (interface) in
/-- Make requests from the initial state, the newest first in the list. -/
def execute : List Request → Option (List (Exchange State Request Result) × State)
  | [] => some ([], interface.initial)
  | request :: earlier =>
      match execute earlier with
      | none => none
      | some (history, before) =>
          match interface.attempt history before request with
          | none => none
          | some (result, after) => some (⟨request, result, before, after⟩ :: history, after)

theorem attempt_eq_some {before after : State} {request : Request} {result : Result}
    (hattempt : interface.attempt history before request = some (result, after)) :
    interface.allowed history before request ∧
      (interface.perform request).run 0 before = .done result 0 after := by
  unfold attempt at hattempt
  split at hattempt
  · next hallowed =>
      split at hattempt
      · next heq =>
          cases hattempt
          exact ⟨hallowed, heq⟩
      · cases hattempt
  · cases hattempt

/-- What executes is a run of exactly these requests. -/
theorem execute_run {requests : List Request}
    (hexecute : interface.execute requests = some (history, state)) :
    interface.Run history state ∧ history.map Exchange.request = requests := by
  induction requests generalizing history state with
  | nil =>
      cases hexecute
      exact ⟨.start, rfl⟩
  | cons request earlier ih =>
      unfold execute at hexecute
      split at hexecute
      · cases hexecute
      · next prior before hearlier =>
          obtain ⟨hrun, hrequests⟩ := ih hearlier
          split at hexecute
          · cases hexecute
          · next result after hattempt =>
              cases hexecute
              obtain ⟨hallowed, hreturned⟩ := attempt_eq_some hattempt
              exact ⟨.step hrun hallowed hreturned, by rw [List.map_cons, hrequests]⟩

/-- What is observed of an execution holds of a run of these requests. -/
theorem execute_map {Value : Type} {requests : List Request} {value : Value}
    {observe : List (Exchange State Request Result) × State → Value}
    (hobserved : (interface.execute requests).map observe = some value) :
    ∃ history state, interface.Run history state ∧ history.map Exchange.request = requests ∧
      observe (history, state) = value := by
  obtain ⟨⟨history, state⟩, hexecute, hvalue⟩ := Option.map_eq_some_iff.mp hobserved
  obtain ⟨hrun, hrequests⟩ := execute_run hexecute
  exact ⟨history, state, hrun, hrequests, hvalue⟩

/-- Requests that execute are those of a run. -/
theorem execute_isSome {requests : List Request}
    (hexecutes : (interface.execute requests).isSome = true) :
    ∃ history state, interface.Run history state ∧ history.map Exchange.request = requests := by
  obtain ⟨⟨history, state⟩, hexecute⟩ := Option.isSome_iff_exists.mp hexecutes
  exact ⟨history, state, execute_run hexecute⟩

end Execution

end Interface

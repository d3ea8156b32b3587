import Mathlib.Logic.Basic
import Mathlib.Tactic.Basic

/-! # Programs with critical sections

A program is a resumption: it returns, faults, or performs one action on the
shared state and continues. Entering and leaving a critical section are steps
of their own, so that one term carries both the sequential meaning of a
program and the points at which another context may take over. The state, the
faults and the results are parameters.
-/

/-- Programs over a shared state. The continuation of `step` receives the
state in which the action was taken. -/
inductive Program (State Fault Result : Type) : Type
  | ret (result : Result)
  | fault (reason : Fault)
  | step (act : State → State) (next : State → Program State Fault Result)
  | enter (next : Program State Fault Result)
  | leave (next : Program State Fault Result)

namespace Program

variable {State Fault Result Next : Type}

def bind : Program State Fault Result → (Result → Program State Fault Next) →
    Program State Fault Next
  | .ret result, rest => rest result
  | .fault reason, _ => .fault reason
  | .step act next, rest => .step act fun state => (next state).bind rest
  | .enter next, rest => .enter (next.bind rest)
  | .leave next, rest => .leave (next.bind rest)

instance : Monad (Program State Fault) where
  pure := .ret
  bind := bind

/-- Read the whole state. -/
def read : Program State Fault State := .step id .ret

/-- Change the state without a result. -/
def modify (act : State → State) : Program State Fault Unit := .step act fun _ => .ret ()

def enterCritical : Program State Fault Unit := .enter (.ret ())

def leaveCritical : Program State Fault Unit := .leave (.ret ())

/-! ## Sequential execution -/

/-- How an uninterrupted execution ends. `unbalanced` is a section left at
nesting depth zero. -/
inductive Outcome (State Fault Result : Type) : Type
  | done (result : Result) (depth : Nat) (state : State)
  | faulted (reason : Fault) (state : State)
  | unbalanced (state : State)

/-- The state an execution ends in, whichever way it ends. -/
def Outcome.state : Outcome State Fault Result → State
  | .done _ _ state => state
  | .faulted _ state => state
  | .unbalanced state => state

/-- Execute without interruption from the given nesting depth. -/
def run : Program State Fault Result → Nat → State → Outcome State Fault Result
  | .ret result, depth, state => .done result depth state
  | .fault reason, _, state => .faulted reason state
  | .step act next, depth, state => (next state).run depth (act state)
  | .enter next, depth, state => next.run (depth + 1) state
  | .leave _, 0, state => .unbalanced state
  | .leave next, depth + 1, state => next.run depth state

/-- Continue an execution that returned. -/
def Outcome.andThen (outcome : Outcome State Fault Result)
    (rest : Result → Nat → State → Outcome State Fault Next) : Outcome State Fault Next :=
  match outcome with
  | .done result depth state => rest result depth state
  | .faulted reason state => .faulted reason state
  | .unbalanced state => .unbalanced state

theorem run_bind (program : Program State Fault Result)
    (rest : Result → Program State Fault Next) (depth : Nat) (state : State) :
    (program >>= rest).run depth state =
      (program.run depth state).andThen fun result => (rest result).run := by
  induction program generalizing depth state with
  | ret result => rfl
  | fault reason => rfl
  | step act next ih => exact ih state depth (act state)
  | enter next ih => exact ih (depth + 1) state
  | leave next ih =>
      cases depth with
      | zero => rfl
      | succ depth => exact ih depth state

/-- A sequence of three parts has no inner structure. -/
theorem bind_assoc {Last : Type} (program : Program State Fault Result)
    (rest : Result → Program State Fault Next) (last : Next → Program State Fault Last) :
    program >>= rest >>= last = program >>= fun result => rest result >>= last := by
  induction program with
  | ret result => rfl
  | fault reason => rfl
  | step act next ih => exact congrArg (Program.step act) (funext ih)
  | enter next ih => exact congrArg Program.enter ih
  | leave next ih => exact congrArg Program.leave ih

/-- What returns in sequence has returned from its first part. -/
theorem done_bind {program : Program State Fault Result} {rest : Result → Program State Fault Next}
    {depth final : Nat} {state after : State} {result : Next}
    (hrun : (program >>= rest).run depth state = .done result final after) :
    ∃ value between middle, program.run depth state = .done value between middle ∧
      (rest value).run between middle = .done result final after := by
  rw [run_bind] at hrun
  cases hprogram : program.run depth state with
  | done value between middle =>
      rw [hprogram] at hrun
      exact ⟨value, between, middle, rfl, hrun⟩
  | faulted reason state =>
      rw [hprogram] at hrun
      cases hrun
  | unbalanced state =>
      rw [hprogram] at hrun
      cases hrun

/-! ## Weakest preconditions -/

/-- The program returns from this depth and state, without fault, in a result,
depth and state that satisfy the postcondition. -/
def wp : Program State Fault Result → (Result → Nat → State → Prop) → Nat → State → Prop
  | .ret result, post, depth, state => post result depth state
  | .fault _, _, _, _ => False
  | .step act next, post, depth, state => (next state).wp post depth (act state)
  | .enter next, post, depth, state => next.wp post (depth + 1) state
  | .leave _, _, 0, _ => False
  | .leave next, post, depth + 1, state => next.wp post depth state

variable {post : Result → Nat → State → Prop} {depth : Nat} {state : State}

theorem wp_iff_run (program : Program State Fault Result) :
    program.wp post depth state ↔
      ∃ result final after, program.run depth state = .done result final after ∧
        post result final after := by
  induction program generalizing depth state with
  | ret result =>
      constructor
      · exact fun hpost => ⟨result, depth, state, rfl, hpost⟩
      · rintro ⟨_, _, _, heq, hpost⟩
        cases heq
        exact hpost
  | fault reason => simp [wp, run]
  | step act next ih => exact ih state
  | enter next ih => exact ih
  | leave next ih =>
      cases depth with
      | zero => simp [wp, run]
      | succ depth => exact ih

@[simp] theorem wp_ret (result : Result) :
    (ret result : Program State Fault Result).wp post depth state ↔ post result depth state :=
  Iff.rfl

@[simp] theorem wp_pure (result : Result) :
    (pure result : Program State Fault Result).wp post depth state ↔ post result depth state :=
  Iff.rfl

@[simp] theorem wp_fault (reason : Fault) :
    (fault reason : Program State Fault Result).wp post depth state ↔ False :=
  Iff.rfl

@[simp] theorem wp_read {post : State → Nat → State → Prop} :
    (read : Program State Fault State).wp post depth state ↔ post state depth state :=
  Iff.rfl

@[simp] theorem wp_modify {post : Unit → Nat → State → Prop} (act : State → State) :
    (modify act : Program State Fault Unit).wp post depth state ↔ post () depth (act state) :=
  Iff.rfl

@[simp] theorem wp_enterCritical {post : Unit → Nat → State → Prop} :
    (enterCritical : Program State Fault Unit).wp post depth state ↔ post () (depth + 1) state :=
  Iff.rfl

@[simp] theorem wp_leaveCritical {post : Unit → Nat → State → Prop} :
    (leaveCritical : Program State Fault Unit).wp post (depth + 1) state ↔ post () depth state :=
  Iff.rfl

@[simp] theorem wp_bind (program : Program State Fault Result)
    (rest : Result → Program State Fault Next) {post : Next → Nat → State → Prop} :
    (program >>= rest).wp post depth state ↔
      program.wp (fun result => (rest result).wp post) depth state := by
  induction program generalizing depth state with
  | ret result => rfl
  | fault reason => rfl
  | step act next ih => exact ih state
  | enter next ih => exact ih
  | leave next ih =>
      cases depth with
      | zero => rfl
      | succ depth => exact ih

@[simp] theorem wp_ite (condition : Prop) [Decidable condition]
    (yes no : Program State Fault Result) :
    (if condition then yes else no).wp post depth state ↔
      if condition then yes.wp post depth state else no.wp post depth state := by
  split <;> rfl

/-- The rule for sequencing inside a larger postcondition. -/
theorem wp_bind_eq (program : Program State Fault Result)
    (rest : Result → Program State Fault Next) {post : Next → Nat → State → Prop} :
    (program >>= rest).wp post = program.wp fun result => (rest result).wp post := by
  funext depth state
  exact propext (wp_bind program rest)

theorem wp_ite_eq (condition : Prop) [Decidable condition]
    (yes no : Program State Fault Result) :
    (if condition then yes else no).wp post =
      if condition then yes.wp post else no.wp post := by
  split <;> rfl

/-- The rule of consequence. -/
theorem wp_mono {program : Program State Fault Result} {weaker : Result → Nat → State → Prop}
    (hwp : program.wp post depth state)
    (himp : ∀ result final after, post result final after → weaker result final after) :
    program.wp weaker depth state := by
  rw [wp_iff_run] at hwp ⊢
  obtain ⟨result, final, after, hrun, hpost⟩ := hwp
  exact ⟨result, final, after, hrun, himp result final after hpost⟩

/-! ## Balanced calls -/

/-- From every nesting depth the program returns to that same depth, in a
result and state that satisfy the postcondition. This is the form in which a
function is specified for its callers. -/
def Returns (program : Program State Fault Result) (state : State)
    (post : Result → State → Prop) : Prop :=
  ∀ depth, program.wp (fun result final after => final = depth ∧ post result after) depth state

namespace Returns

variable {program : Program State Fault Result} {spec weaker : Result → State → Prop}

/-- A caller uses the specification of a function at its own depth. -/
theorem wp (hreturns : program.Returns state spec)
    (hpost : ∀ result after, spec result after → post result depth after) :
    program.wp post depth state := by
  apply wp_mono (hreturns depth)
  rintro result final after ⟨rfl, hspec⟩
  exact hpost result after hspec

theorem mono (hreturns : program.Returns state spec)
    (himp : ∀ result after, spec result after → weaker result after) :
    program.Returns state weaker :=
  fun _ => hreturns.wp fun result after hspec => ⟨rfl, himp result after hspec⟩

theorem run (hreturns : program.Returns state spec) (depth : Nat) :
    ∃ result after, program.run depth state = .done result depth after ∧ spec result after := by
  obtain ⟨result, final, after, hrun, rfl, hspec⟩ := (wp_iff_run program).mp (hreturns depth)
  exact ⟨result, after, hrun, hspec⟩

/-- Every execution that is observed to return satisfies the specification. -/
theorem of_run (hreturns : program.Returns state spec) {result : Result} {final : Nat}
    {after : State} (hrun : program.run depth state = .done result final after) :
    final = depth ∧ spec result after := by
  obtain ⟨result', after', hrun', hspec⟩ := hreturns.run depth
  rw [hrun'] at hrun
  cases hrun
  exact ⟨rfl, hspec⟩

theorem and {other : Result → State → Prop} (hleft : program.Returns state spec)
    (hright : program.Returns state other) :
    program.Returns state fun result after => spec result after ∧ other result after := by
  intro depth
  obtain ⟨result, after, hrun, hspec⟩ := hleft.run depth
  exact (wp_iff_run program).mpr
    ⟨result, depth, after, hrun, rfl, hspec, (hright.of_run hrun).2⟩

/-- Sequencing: each part is specified on its own. -/
theorem bind {rest : Result → Program State Fault Next} {final : Next → State → Prop}
    (hreturns : program.Returns state spec)
    (hrest : ∀ result after, spec result after → (rest result).Returns after final) :
    (program >>= rest).Returns state final := by
  intro depth
  rw [wp_bind]
  exact hreturns.wp fun result after hspec => hrest result after hspec depth

end Returns

@[simp] theorem returns_pure (result : Result) {spec : Result → State → Prop} :
    (pure result : Program State Fault Result).Returns state spec ↔ spec result state :=
  ⟨fun hreturns => (hreturns 0).2, fun hspec _ => ⟨rfl, hspec⟩⟩

/-- The program returns exactly this result and state. -/
def Evaluates (program : Program State Fault Result) (state : State) (result : Result)
    (after : State) : Prop :=
  program.Returns state fun value final => value = result ∧ final = after

/-- A call whose result and final state are known is replaced by them. -/
theorem Evaluates.wp_iff {program : Program State Fault Result} {result : Result} {after : State}
    (heval : program.Evaluates state result after) :
    program.wp post depth state ↔ post result depth after := by
  obtain ⟨_, _, hrun, rfl, rfl⟩ := heval.run depth
  rw [wp_iff_run]
  constructor
  · rintro ⟨_, _, _, hrun', hpost⟩
    rw [hrun] at hrun'
    cases hrun'
    exact hpost
  · intro hpost
    exact ⟨_, _, _, hrun, hpost⟩

/-- Continue behind a call whose result and final state are known. -/
theorem Evaluates.bind {program : Program State Fault Result} {result : Result} {after : State}
    {rest : Result → Program State Fault Next} {final : Next → State → Prop}
    (heval : program.Evaluates state result after) (hrest : (rest result).Returns after final) :
    (program >>= rest).Returns state final := by
  refine Returns.bind heval ?_
  rintro _ _ ⟨rfl, rfl⟩
  exact hrest

theorem Evaluates.run_bind {program : Program State Fault Result} {result : Result} {after : State}
    {rest : Result → Program State Fault Next} (heval : program.Evaluates state result after) :
    (program >>= rest).run depth state = (rest result).run depth after := by
  obtain ⟨_, _, hrun, rfl, rfl⟩ := heval.run depth
  rw [Program.run_bind, hrun]
  rfl

/-! ## What every step of a program does -/

/-- Every step the program can take, in whatever state, is one of the relation. -/
def Within (relation : State → State → Prop) : Program State Fault Result → Prop
  | .ret _ | .fault _ => True
  | .step act next => (∀ state, relation state (act state)) ∧ ∀ state, (next state).Within relation
  | .enter next | .leave next => next.Within relation

section Steps

variable {relation : State → State → Prop} {program : Program State Fault Result}

@[simp] theorem within_pure (result : Result) :
    (pure result : Program State Fault Result).Within relation := trivial

@[simp] theorem within_fault (reason : Fault) :
    (fault reason : Program State Fault Result).Within relation := trivial

@[simp] theorem within_modify (act : State → State) :
    (modify act : Program State Fault Unit).Within relation ↔
      ∀ state, relation state (act state) :=
  and_iff_left fun _ => trivial

@[simp] theorem within_enterCritical :
    (enterCritical : Program State Fault Unit).Within relation := trivial

@[simp] theorem within_leaveCritical :
    (leaveCritical : Program State Fault Unit).Within relation := trivial

theorem Within.bind {rest : Result → Program State Fault Next} (hprogram : program.Within relation)
    (hrest : ∀ result, (rest result).Within relation) : (program >>= rest).Within relation := by
  induction program with
  | ret result => exact hrest result
  | fault reason => trivial
  | step act next ih => exact ⟨hprogram.1, fun state => ih state (hprogram.2 state)⟩
  | enter next ih => exact ih hprogram
  | leave next ih => exact ih hprogram

theorem Within.ite {condition : Prop} [Decidable condition] {other : Program State Fault Result}
    (hyes : program.Within relation) (hno : other.Within relation) :
    (if condition then program else other).Within relation := by
  split
  · exact hyes
  · exact hno

/-- A whole execution relates its first state to its last, however it ends. -/
theorem Within.run (hprogram : program.Within relation) (hrefl : ∀ state, relation state state)
    (htrans : ∀ first second third, relation first second → relation second third →
      relation first third) (depth : Nat) (state : State) :
    relation state (program.run depth state).state := by
  induction program generalizing depth state with
  | ret result => exact hrefl state
  | fault reason => exact hrefl state
  | step act next ih =>
      exact htrans _ _ _ (hprogram.1 state) (ih state (hprogram.2 state) depth (act state))
  | enter next ih => exact ih hprogram (depth + 1) state
  | leave next ih =>
      cases depth with
      | zero => exact hrefl state
      | succ depth => exact ih hprogram depth state

/-- A call that returns also did what each of its steps does. -/
theorem Returns.within {spec : Result → State → Prop} (hreturns : program.Returns state spec)
    (hprogram : program.Within relation) (hrefl : ∀ state, relation state state)
    (htrans : ∀ first second third, relation first second → relation second third →
      relation first third) :
    program.Returns state fun result after => spec result after ∧ relation state after := by
  intro depth
  obtain ⟨result, after, hrun, hspec⟩ := hreturns.run depth
  have hrelated := hprogram.run hrefl htrans depth state
  rw [hrun] at hrelated
  exact (wp_iff_run program).mpr ⟨result, depth, after, hrun, rfl, hspec, hrelated⟩

end Steps

end Program

import MicroTbx.Foundation.Interleaving
import MicroTbx.Foundation.Preemption

/-! # Sections on a processor

Contexts take turns on one processor. They execute their requests one action at
a time, and entering and leaving a section means executing the procedures of a
machine, which is done one action at a time as well. Whenever the interrupts
are enabled, and whenever a context has nothing to do, the processor may turn
to another one: to a handler, back from it, or to another task.

If the procedures have a proof outline that disables the interrupts inside of
sections, the contexts cannot tell this from an interleaving in which every
outermost section is a single step.
-/

/-- A request that is being carried out: what is left of its program, and how
far the context is with the procedures around its sections. -/
structure Activity (State Fault Request Result Guard Status : Type) where
  request : Request
  left : Program State Fault Result
  control : Context Guard Status

/-- The machine around sections, and how the processor continues with another
interrupt status. -/
structure Processor (Guard Status : Type) where
  machine : Machine Unit Guard Status
  load : Guard → Status → Guard

/-- The shared state, the state that the procedures around sections act on, the context that has its
turn, and the others with their interrupt statuses. Only calls and returns are
recorded, the newest first. -/
structure ProcessorConfig (Client State Guard Status Fault Request Result : Type) where
  shared : State
  guard : Guard
  running : Client
  activities : Client → Option (Activity State Fault Request Result Guard Status)
  statuses : Client → Status
  moves : List (Client × ClientMove State Request Result)

variable {Client State Guard Status Fault Request Result : Type}

/-- Calls and returns. -/
def ClientMove.isVisible : ClientMove State Request Result → Bool
  | .called _ | .returned _ _ => true
  | .stepped _ _ _ => false

/-- What contexts know of a run without looking into their calls. -/
def visible (moves : List (Client × ClientMove State Request Result)) :
    List (Client × ClientMove State Request Result) :=
  moves.filter fun move => move.2.isVisible

@[simp] theorem visible_visible (moves : List (Client × ClientMove State Request Result)) :
    visible (visible moves) = visible moves := by
  simp [visible]

namespace Activity

/-- Begin a request. -/
def begin (request : Request) (program : Program State Fault Result) :
    Activity State Fault Request Result Guard Status :=
  ⟨request, program, .initial⟩

/-- One action of the context: of the procedure that it executes, or else of
its program. -/
def advance (machine : Machine Unit Guard Status)
    (activity : Activity State Fault Request Result Guard Status) (shared : State)
    (guard : Guard) :
    Option (State × Guard × Activity State Fault Request Result Guard Status) :=
  match activity.control.current with
  | some (crossing, .step act next) =>
      (act guard).map fun after => (shared, after, { activity with
        control := { activity.control with current := some (crossing, next guard) } })
  | some (crossing, .ret ()) =>
      some (shared, guard, { activity with control := activity.control.finish crossing })
  | none =>
      match activity.left with
      | .step act next => some (act shared, guard, { activity with left := next shared })
      | .enter next =>
          if machine.nestable activity.control.depth then
            some (shared, guard, { activity with
              left := next
              control := activity.control.callEnter (machine.status () guard)
                (machine.procedure () .enter) })
          else none
      | .leave next =>
          if 0 < activity.control.depth then
            some (shared, guard, { activity with
              left := next
              control := activity.control.callExit (machine.procedure () .exit) })
          else none
      | .ret _ | .fault _ => none

/-- Sections that were entered, or are being entered. -/
def depth (activity : Activity State Fault Request Result Guard Status) : Nat :=
  match activity.control.current with
  | some (.enter, _) => activity.control.depth + 1
  | _ => activity.control.depth

/-- What is left to do, seen from outside of all sections. -/
def whole (activity : Activity State Fault Request Result Guard Status) :
    Program State Fault Result :=
  match activity.control.current with
  | some (.enter, _) => .enter activity.left
  | _ => activity.left

end Activity

namespace Processor

variable [DecidableEq Client]

/-- One step of the context that has its turn, or a turn. A context without a
request may change its interrupt status, and starts a turn with any. -/
inductive Step (processor : Processor Guard Status)
    (clients : Clients Client State Fault Request Result) :
    ProcessorConfig Client State Guard Status Fault Request Result →
    ProcessorConfig Client State Guard Status Fault Request Result → Prop
  | call {config : ProcessorConfig Client State Guard Status Fault Request Result}
      {request : Request} (idle : config.activities config.running = none)
      (isAllowed : clients.allowed config.moves config.running request) :
      Step processor clients config { config with
        activities := Function.update config.activities config.running
          (some (.begin request (clients.perform request)))
        moves := (config.running, .called request) :: config.moves }
  | advance {config : ProcessorConfig Client State Guard Status Fault Request Result}
      {activity next : Activity State Fault Request Result Guard Status}
      (busy : config.activities config.running = some activity) {shared : State}
      {guard : Guard} (advances : activity.advance processor.machine config.shared
        config.guard = some (shared, guard, next)) :
      Step processor clients config { config with
        shared := shared
        guard := guard
        activities := Function.update config.activities config.running (some next) }
  | finish {config : ProcessorConfig Client State Guard Status Fault Request Result}
      {activity : Activity State Fault Request Result Guard Status} {result : Result}
      (busy : config.activities config.running = some activity)
      (outside : activity.control.current = none) (finished : activity.left = .ret result) :
      Step processor clients config { config with
        activities := Function.update config.activities config.running none
        moves := (config.running, .returned activity.request result) :: config.moves }
  | turn {config : ProcessorConfig Client State Guard Status Fault Request Result}
      {client : Client} {status : Status} (other : client ≠ config.running)
      (free : processor.machine.interruptible () config.guard = true ∨
        config.activities config.running = none)
      (resumes : config.activities client ≠ none → status = config.statuses client) :
      Step processor clients config { config with
        guard := processor.load config.guard status
        running := client
        statuses := Function.update config.statuses config.running
          (processor.machine.status () config.guard) }
  | setStatus {config : ProcessorConfig Client State Guard Status Fault Request Result}
      {status : Status} (idle : config.activities config.running = none) :
      Step processor clients config { config with
        guard := processor.load config.guard status }

/-- Nothing was called yet. -/
def start (_ : Processor Guard Status) (shared : State) (guard : Guard)
    (running : Client) (statuses : Client → Status) :
    ProcessorConfig Client State Guard Status Fault Request Result :=
  ⟨shared, guard, running, fun _ => none, statuses, []⟩

/-- What the contexts can get into, whenever the processor turns to which. -/
def Reachable (processor : Processor Guard Status)
    (clients : Clients Client State Fault Request Result)
    (start : ProcessorConfig Client State Guard Status Fault Request Result) :
    ProcessorConfig Client State Guard Status Fault Request Result → Prop :=
  Relation.ReflTransGen (processor.Step clients) start

end Processor

/-! ## Executing a schedule -/

/-- What may happen next on a processor. -/
inductive ProcessorChoice (Client Request Status : Type)
  | call (request : Request)
  | advance
  | finish
  | turn (client : Client) (status : Status)
  | setStatus (status : Status)

namespace Processor

section Schedules

variable [DecidableEq Client] (processor : Processor Guard Status)
  (clients : Clients Client State Fault Request Result)
  [∀ moves client request, Decidable (clients.allowed moves client request)]

/-- Make a choice, if it can be made. A context that was interrupted goes on with
its own interrupt status. -/
def move (config : ProcessorConfig Client State Guard Status Fault Request Result) :
    ProcessorChoice Client Request Status →
      Option (ProcessorConfig Client State Guard Status Fault Request Result)
  | .call request =>
      match config.activities config.running with
      | none =>
          if clients.allowed config.moves config.running request then
            some { config with
              activities := Function.update config.activities config.running
                (some (.begin request (clients.perform request)))
              moves := (config.running, .called request) :: config.moves }
          else none
      | some _ => none
  | .advance =>
      match config.activities config.running with
      | none => none
      | some activity =>
          match activity.advance processor.machine config.shared config.guard with
          | none => none
          | some (shared, guard, next) =>
              some { config with
                shared := shared
                guard := guard
                activities := Function.update config.activities config.running (some next) }
  | .finish =>
      match config.activities config.running with
      | some ⟨request, .ret result, ⟨_, _, none⟩⟩ =>
          some { config with
            activities := Function.update config.activities config.running none
            moves := (config.running, .returned request result) :: config.moves }
      | _ => none
  | .turn client status =>
      if client ≠ config.running ∧ (processor.machine.interruptible () config.guard = true ∨
          (config.activities config.running).isNone) then
        some { config with
          guard := processor.load config.guard
            (if (config.activities client).isNone then status else config.statuses client)
          running := client
          statuses := Function.update config.statuses config.running
            (processor.machine.status () config.guard) }
      else none
  | .setStatus status =>
      if (config.activities config.running).isNone then
        some { config with guard := processor.load config.guard status }
      else none

/-- Make the choices of a schedule, in order. -/
def schedule (config : ProcessorConfig Client State Guard Status Fault Request Result) :
    List (ProcessorChoice Client Request Status) →
      Option (ProcessorConfig Client State Guard Status Fault Request Result)
  | [] => some config
  | choice :: later =>
      match processor.move clients config choice with
      | none => none
      | some next => schedule next later

variable {processor clients}
  {config next : ProcessorConfig Client State Guard Status Fault Request Result}

theorem step_of_move {choice : ProcessorChoice Client Request Status}
    (hmove : processor.move clients config choice = some next) :
    processor.Step clients config next := by
  cases choice with
  | call request =>
      simp only [move] at hmove
      split at hmove
      · next idle =>
          obtain ⟨isAllowed, heq⟩ := Option.ite_none_right_eq_some.mp hmove
          cases heq
          exact .call idle isAllowed
      · cases hmove
  | advance =>
      simp only [move] at hmove
      split at hmove
      · cases hmove
      · next busy =>
          split at hmove
          · cases hmove
          · next advances =>
              cases hmove
              exact .advance busy advances
  | finish =>
      simp only [move] at hmove
      split at hmove
      · next busy =>
          cases hmove
          exact .finish busy rfl rfl
      · cases hmove
  | turn client status =>
      simp only [move, Option.isNone_iff_eq_none] at hmove
      obtain ⟨⟨other, free⟩, heq⟩ := Option.ite_none_right_eq_some.mp hmove
      cases heq
      exact .turn other free fun hbusy => if_neg hbusy
  | setStatus status =>
      simp only [move, Option.isNone_iff_eq_none] at hmove
      obtain ⟨idle, heq⟩ := Option.ite_none_right_eq_some.mp hmove
      cases heq
      exact .setStatus idle

/-- What a schedule leads to can be reached. -/
theorem steps_of_schedule {choices : List (ProcessorChoice Client Request Status)}
    (hschedule : processor.schedule clients config choices = some next) :
    processor.Reachable clients config next := by
  induction choices generalizing config with
  | nil =>
      cases hschedule
      exact .refl
  | cons choice later ih =>
      unfold schedule at hschedule
      split at hschedule
      · cases hschedule
      · next hmove => exact .head (step_of_move hmove) (ih hschedule)

end Schedules

end Processor

namespace ProcessorConfig

variable (config : ProcessorConfig Client State Guard Status Fault Request Result)

/-- No context is inside of a section. -/
def OutsideSections : Prop :=
  ∀ client activity, config.activities client = some activity → activity.control.depth = 0

/-- No context is about to do what the program gives no meaning to. -/
def Faultless : Prop :=
  ∀ client activity reason, config.activities client = some activity →
    activity.left ≠ .fault reason

end ProcessorConfig

/-! ## One action of a context -/

namespace Activity

variable {machine : Machine Unit Guard Status} {outline : Outline Unit Guard Status}
  {activity next : Activity State Fault Request Result Guard Status} {shared after seen : State}
  {guard later : Guard} {base : Status} {program : Program State Fault Result}

/-- Where an activity is in its program when every section is a single step:
before the section that it is in. -/
def Matches (activity : Activity State Fault Request Result Guard Status) (shared seen : State)
    (program : Program State Fault Result) : Prop :=
  match activity.control.depth with
  | 0 => program = activity.whole ∧ seen = shared
  | _ + 1 => ∃ start, program = .enter start ∧
      start.inside 0 seen = activity.left.inside (activity.depth - 1) shared

theorem advance_request
    (hadvance : activity.advance machine shared guard = some (after, later, next)) :
    next.request = activity.request := by
  unfold advance at hadvance
  split at hadvance
  · obtain ⟨taken, -, heq⟩ := Option.map_eq_some_iff.mp hadvance
    cases heq
    rfl
  · cases hadvance
    rfl
  · split at hadvance
    · cases hadvance
      rfl
    · split at hadvance <;> cases hadvance
      rfl
    · split at hadvance <;> cases hadvance
      rfl
    · cases hadvance
    · cases hadvance

/-- The procedures keep to their outline. -/
theorem advance_holds (hsound : outline.Sound machine)
    (hholds : outline.Holds machine () base activity.control guard)
    (hadvance : activity.advance machine shared guard = some (after, later, next)) :
    outline.Holds machine () base next.control later := by
  obtain ⟨request, left, depth, before, current⟩ := activity
  obtain ⟨hbefore, hcurrent⟩ := hholds
  cases current with
  | some call =>
      obtain ⟨crossing, thread⟩ := call
      cases thread with
      | ret result =>
          cases hadvance
          cases crossing with
          | enter => exact ⟨fun _ => hbefore (.inr rfl), hcurrent⟩
          | exit => exact ⟨fun _ => hbefore (.inr rfl), hcurrent⟩
      | step act rest =>
          obtain ⟨taken, htaken, heq⟩ := Option.map_eq_some_iff.mp hadvance
          cases heq
          cases crossing with
          | enter =>
              obtain ⟨assertion, -, hguard, hact⟩ := hcurrent
              exact ⟨fun _ => hbefore (.inr rfl), (hact guard _ hguard htaken).2⟩
          | exit =>
              obtain ⟨assertion, -, hguard, hact⟩ := hcurrent
              exact ⟨fun _ => hbefore (.inr rfl), (hact guard _ hguard htaken).2⟩
  | none =>
      cases left with
      | ret result => cases hadvance
      | fault reason => cases hadvance
      | step act rest =>
          cases hadvance
          exact ⟨hbefore, hcurrent⟩
      | enter rest =>
          obtain ⟨hnestable, heq⟩ := Option.ite_none_right_eq_some.mp hadvance
          cases heq
          refine ⟨fun _ => ?_, hsound.enter () base depth guard hnestable hcurrent⟩
          cases depth with
          | zero => exact congrArg some (hsound.status () base guard hcurrent)
          | succ depth => exact hbefore (.inl (Nat.succ_pos depth))
      | leave rest =>
          obtain ⟨hinside, heq⟩ := Option.ite_none_right_eq_some.mp hadvance
          cases heq
          cases depth with
          | zero => exact absurd hinside (Nat.lt_irrefl 0)
          | succ depth =>
              exact ⟨fun _ => hbefore (.inl hinside), hsound.exit () base depth guard hcurrent⟩

/-- Sections are left as often as they were entered. -/
theorem advance_balanced (hbalanced : activity.left.Balanced activity.depth)
    (hadvance : activity.advance machine shared guard = some (after, later, next)) :
    next.left.Balanced next.depth := by
  obtain ⟨request, left, depth, before, current⟩ := activity
  cases current with
  | some call =>
      obtain ⟨crossing, thread⟩ := call
      cases thread with
      | ret result =>
          cases hadvance
          cases crossing with
          | enter => exact hbalanced
          | exit => exact hbalanced
      | step act rest =>
          obtain ⟨taken, -, heq⟩ := Option.map_eq_some_iff.mp hadvance
          cases heq
          cases crossing with
          | enter => exact hbalanced
          | exit => exact hbalanced
  | none =>
      cases left with
      | ret result => cases hadvance
      | fault reason => cases hadvance
      | step act rest =>
          cases hadvance
          exact hbalanced shared
      | enter rest =>
          obtain ⟨-, heq⟩ := Option.ite_none_right_eq_some.mp hadvance
          cases heq
          exact hbalanced
      | leave rest =>
          obtain ⟨hinside, heq⟩ := Option.ite_none_right_eq_some.mp hadvance
          cases heq
          cases depth with
          | zero => exact hbalanced.elim
          | succ depth => exact hbalanced

/-- An action outside of all sections is a step, and so is leaving the outermost
section. Of any other action nothing is seen. -/
theorem advance_matches (hmatches : activity.Matches shared seen program)
    (hadvance : activity.advance machine shared guard = some (after, later, next)) :
    next.Matches after seen program ∨
      ∃ rest final, program.advance seen = some (rest, final) ∧ next.Matches after final rest := by
  obtain ⟨request, left, depth, before, current⟩ := activity
  cases current with
  | some call =>
      obtain ⟨crossing, thread⟩ := call
      refine .inl ?_
      cases thread with
      | ret result =>
          cases hadvance
          cases crossing with
          | exit => exact hmatches
          | enter =>
              cases depth with
              | zero =>
                  obtain ⟨rfl, rfl⟩ := hmatches
                  exact ⟨left, rfl, rfl⟩
              | succ depth => exact hmatches
      | step act rest =>
          obtain ⟨taken, -, heq⟩ := Option.map_eq_some_iff.mp hadvance
          cases heq
          cases crossing with
          | enter => exact hmatches
          | exit => exact hmatches
  | none =>
      cases left with
      | ret result => cases hadvance
      | fault reason => cases hadvance
      | step act rest =>
          cases hadvance
          cases depth with
          | zero =>
              obtain ⟨rfl, rfl⟩ := hmatches
              exact .inr ⟨_, _, rfl, rfl, rfl⟩
          | succ depth => exact .inl hmatches
      | enter rest =>
          obtain ⟨-, heq⟩ := Option.ite_none_right_eq_some.mp hadvance
          cases heq
          cases depth with
          | zero => exact .inl hmatches
          | succ depth => exact .inl hmatches
      | leave rest =>
          obtain ⟨hinside, heq⟩ := Option.ite_none_right_eq_some.mp hadvance
          cases heq
          -- The outermost section ends here, the interrupts are enabled later.
          cases depth with
          | zero => exact absurd hinside (Nat.lt_irrefl 0)
          | succ depth =>
              obtain ⟨start, rfl, hinside⟩ := hmatches
              cases depth with
              | zero => exact .inr ⟨rest, shared, hinside, rfl, rfl⟩
              | succ depth => exact .inl ⟨start, rfl, hinside⟩

/-- A context that can be interrupted is outside of all sections. -/
theorem depth_eq_zero (hsound : outline.Sound machine)
    (hdisabled : ∀ base depth guard, outline.always () base (depth + 1) guard →
      machine.interruptible () guard = false)
    (hholds : outline.Holds machine () base activity.control guard)
    (henabled : machine.interruptible () guard = true) : activity.control.depth = 0 := by
  cases hdepth : activity.control.depth with
  | zero => rfl
  | succ depth =>
      have halways := hholds.always hsound
      rw [hdepth] at halways
      rw [hdisabled base depth guard halways] at henabled
      cases henabled

/-- An activity whose program can go on, or has a result, has not run into a
fault. -/
theorem Matches.left_ne_fault {reason : Fault} (hmatches : activity.Matches shared seen program)
    (hlive : (∃ result, program = .ret result) ∨
      ∃ rest final, program.advance seen = some (rest, final)) :
    activity.left ≠ .fault reason := by
  obtain ⟨request, left, depth, before, current⟩ := activity
  rintro (rfl : left = .fault reason)
  have hstuck : (∀ result, program ≠ .ret result) → program.advance seen ≠ none := by
    intro hne hnone
    rcases hlive with ⟨result, hret⟩ | ⟨rest, final, hadvance⟩
    · exact hne result hret
    · cases hnone.symm.trans hadvance
  cases depth with
  | succ depth =>
      obtain ⟨start, rfl, hstart⟩ := hmatches
      exact hstuck (fun _ => nofun) hstart
  | zero =>
      obtain ⟨rfl, rfl⟩ := hmatches
      rcases current with _ | ⟨_ | _, thread⟩
      · exact hstuck (fun _ => nofun) rfl
      · exact hstuck (fun _ => nofun) rfl
      · exact hstuck (fun _ => nofun) rfl

end Activity

/-! ## The simulation -/

variable {processor : Processor Guard Status} {outline : Outline Unit Guard Status}
  {clients : Clients Client State Fault Request Result}
  {config next : ProcessorConfig Client State Guard Status Fault Request Result}
  {seen : ClientConfig Client State Fault Request Result}

namespace Processor

/-- The procedures have a proof outline in which the interrupts are disabled
inside of sections, and a context that is outside of them can be continued. -/
structure Excludes (processor : Processor Guard Status) (outline : Outline Unit Guard Status) :
    Prop where
  sound : outline.Sound processor.machine
  disabled : ∀ base depth guard, outline.always () base (depth + 1) guard →
    processor.machine.interruptible () guard = false
  load : ∀ base status guard, outline.settled () base 0 guard →
    outline.settled () status 0 (processor.load guard status)

/-- What the processor does, and what is seen of it if every section is one
step. -/
structure Simulates (processor : Processor Guard Status) (outline : Outline Unit Guard Status)
    (config : ProcessorConfig Client State Guard Status Fault Request Result)
    (seen : ClientConfig Client State Fault Request Result) : Prop where
  moves : visible seen.moves = config.moves
  idle : ∀ client, config.activities client = none → seen.busy client = none
  balanced : ∀ client activity, config.activities client = some activity →
    activity.left.Balanced activity.depth
  /-- A context that waits for its turn goes on where it was interrupted. -/
  waiting : ∀ client activity, client ≠ config.running →
    config.activities client = some activity → activity.control.depth = 0 ∧
      seen.busy client = some (activity.request, activity.whole) ∧
      ∀ guard, outline.settled () (config.statuses client) 0 guard →
        outline.Holds processor.machine () (config.statuses client) activity.control guard
  resting : config.activities config.running = none →
    seen.shared = config.shared ∧ ∃ base, outline.settled () base 0 config.guard
  running : ∀ activity, config.activities config.running = some activity → ∃ base program,
    outline.Holds processor.machine () base activity.control config.guard ∧
      seen.busy config.running = some (activity.request, program) ∧
      activity.Matches config.shared seen.shared program

namespace Simulates

/-- The processor can turn to another context only if nothing is hidden. -/
theorem free (hsimulates : Simulates processor outline config seen)
    (hexcludes : processor.Excludes outline)
    (hfree : processor.machine.interruptible () config.guard = true ∨
      config.activities config.running = none) :
    seen.shared = config.shared ∧ ∃ base, outline.settled () base 0 config.guard ∧
      ∀ activity, config.activities config.running = some activity →
        activity.control.depth = 0 ∧
          seen.busy config.running = some (activity.request, activity.whole) ∧
          ∀ guard, outline.settled () base 0 guard →
            outline.Holds processor.machine () base activity.control guard := by
  cases hactivity : config.activities config.running with
  | none =>
      obtain ⟨hshared, base, hbase⟩ := hsimulates.resting hactivity
      exact ⟨hshared, base, hbase, fun _ hsome => by cases hsome⟩
  | some activity =>
      have henabled := hfree.resolve_right (by simp [hactivity])
      obtain ⟨base, program, hholds, hbusy, hmatches⟩ := hsimulates.running activity hactivity
      have hdepth := Activity.depth_eq_zero hexcludes.sound hexcludes.disabled hholds henabled
      obtain ⟨assertion, hstable, hassertion, hback⟩ := hholds.stable hexcludes.sound
      simp only [Activity.Matches, hdepth] at hmatches
      obtain ⟨rfl, hshared⟩ := hmatches
      refine ⟨hshared, base, hstable.settled _ hassertion henabled, ?_⟩
      rintro _ ⟨⟩
      exact ⟨hdepth, hbusy, fun guard hguard =>
        hback guard (hstable.resumed _ guard hassertion henabled hguard)⟩

variable [DecidableEq Client]

/-- Only the context that has its turn does anything. -/
theorem update (hsimulates : Simulates processor outline config seen) {shared : State}
    {guard : Guard} {activity : Option (Activity State Fault Request Result Guard Status)}
    {after : ClientConfig Client State Fault Request Result}
    {busy : Option (Request × Program State Fault Result)}
    {moves : List (Client × ClientMove State Request Result)} (hmoves : visible after.moves = moves)
    (hbusy : after.busy = Function.update seen.busy config.running busy)
    (hidle : activity = none → busy = none ∧ after.shared = shared ∧
      ∃ base, outline.settled () base 0 guard)
    (hrunning : ∀ current, activity = some current → current.left.Balanced current.depth ∧
      ∃ base program, outline.Holds processor.machine () base current.control guard ∧
        busy = some (current.request, program) ∧ current.Matches shared after.shared program) :
    Simulates processor outline { config with
      shared := shared
      guard := guard
      activities := Function.update config.activities config.running activity
      moves := moves } after where
  moves := hmoves
  idle := by
    intro client hclient
    dsimp only at hclient
    rw [hbusy]
    by_cases heq : client = config.running
    · subst heq
      rw [Function.update_self] at hclient ⊢
      exact (hidle hclient).1
    · rw [Function.update_of_ne heq] at hclient ⊢
      exact hsimulates.idle client hclient
  balanced := by
    intro client current hclient
    dsimp only at hclient
    by_cases heq : client = config.running
    · subst heq
      rw [Function.update_self] at hclient
      exact (hrunning current hclient).1
    · rw [Function.update_of_ne heq] at hclient
      exact hsimulates.balanced client current hclient
  waiting := by
    intro client current hother hclient
    dsimp only at hclient hother
    rw [hbusy, Function.update_of_ne hother]
    rw [Function.update_of_ne hother] at hclient
    exact hsimulates.waiting client current hother hclient
  resting := by
    intro hnone
    dsimp only at hnone
    rw [Function.update_self] at hnone
    exact (hidle hnone).2
  running := by
    intro current hcurrent
    dsimp only at hcurrent ⊢
    rw [Function.update_self] at hcurrent
    rw [hbusy, Function.update_self]
    exact (hrunning current hcurrent).2

/-- Every step of the processor is a step as it is seen, or nothing is seen. -/
theorem step (hsimulates : Simulates processor outline config seen)
    (hexcludes : processor.Excludes outline)
    (hbalanced : ∀ request, (clients.perform request).Balanced 0)
    (hvisible : ∀ moves client request, clients.allowed (visible moves) client request →
      clients.allowed moves client request)
    (hstep : processor.Step clients config next) :
    ∃ after, (after = seen ∨ clients.Step seen after) ∧ Simulates processor outline next after := by
  have hmoves := hsimulates.moves
  cases hstep with
  | @call request idle isAllowed =>
      obtain ⟨hshared, base, hbase⟩ := hsimulates.resting idle
      rw [← hmoves] at isAllowed
      refine ⟨_, .inr (.call (hsimulates.idle _ idle) (hvisible _ _ _ isAllowed)), ?_⟩
      refine hsimulates.update (congrArg (_ :: ·) hmoves) rfl (fun hnone => by cases hnone) ?_
      rintro _ ⟨⟩
      refine ⟨hbalanced request, base, _, ⟨fun hinside => ?_, hbase⟩, rfl, rfl, hshared⟩
      rcases hinside with hpos | hsome
      · exact absurd hpos (Nat.lt_irrefl 0)
      · cases hsome
  | @advance activity following busy shared guard advances =>
      obtain ⟨base, program, hholds, hbusy, hmatches⟩ := hsimulates.running activity busy
      have hbalanced := Activity.advance_balanced (hsimulates.balanced _ activity busy) advances
      have hkeeps := Activity.advance_holds hexcludes.sound hholds advances
      have hrequest := Activity.advance_request advances
      rcases Activity.advance_matches hmatches advances with hsame | ⟨rest, final, hadvance, hnext⟩
      · refine ⟨seen, .inl rfl, ?_⟩
        refine hsimulates.update hmoves (Function.update_eq_self ..).symm
          (fun hnone => by cases hnone) ?_
        rintro _ ⟨⟩
        exact ⟨hbalanced, base, program, hkeeps, hrequest ▸ hbusy, hsame⟩
      · refine ⟨_, .inr (.step hbusy hadvance), ?_⟩
        refine hsimulates.update hmoves rfl (fun hnone => by cases hnone) ?_
        rintro _ ⟨⟩
        exact ⟨hbalanced, base, rest, hkeeps, hrequest ▸ rfl, hnext⟩
  | @finish activity result busy outside finished =>
      obtain ⟨base, program, hholds, hbusy, hmatches⟩ := hsimulates.running activity busy
      have hzero : activity.control.depth = 0 := by
        have hdepth := hsimulates.balanced _ activity busy
        rw [finished] at hdepth
        have hdone : activity.depth = 0 := hdepth
        rwa [Activity.depth, outside] at hdone
      simp only [Activity.Matches, hzero, Activity.whole, outside, finished] at hmatches
      obtain ⟨rfl, hshared⟩ := hmatches
      have hsettled := hholds.2
      simp only [outside, hzero] at hsettled
      refine ⟨_, .inr (.finish hbusy), ?_⟩
      exact hsimulates.update (congrArg (_ :: ·) hmoves) rfl (fun _ => ⟨rfl, hshared, base, hsettled⟩)
        fun _ hsome => by cases hsome
  | @turn client status other free resumes =>
      obtain ⟨hshared, base, hbase, hinterrupted⟩ := hsimulates.free hexcludes free
      have hloaded := hexcludes.load base status config.guard hbase
      refine ⟨seen, .inl rfl, ?_⟩
      constructor
      · exact hmoves
      · exact hsimulates.idle
      · exact hsimulates.balanced
      · intro waiting activity hwaiting hactivity
        dsimp only
        by_cases heq : waiting = config.running
        · subst heq
          rw [Function.update_self, hexcludes.sound.status () base _ hbase]
          exact hinterrupted activity hactivity
        · rw [Function.update_of_ne heq]
          exact hsimulates.waiting waiting activity heq hactivity
      · exact fun _ => ⟨hshared, status, hloaded⟩
      · intro activity hactivity
        dsimp only at hactivity
        obtain rfl := resumes (by simp [hactivity])
        obtain ⟨hdepth, hbusy, hholds⟩ := hsimulates.waiting client activity other hactivity
        refine ⟨_, activity.whole, hholds _ hloaded, hbusy, ?_⟩
        simp only [Activity.Matches, hdepth]
        exact ⟨trivial, hshared⟩
  | @setStatus status idle =>
      obtain ⟨hshared, base, hbase⟩ := hsimulates.resting idle
      refine ⟨seen, .inl rfl, hmoves, hsimulates.idle, hsimulates.balanced, hsimulates.waiting,
        fun _ => ⟨hshared, status, hexcludes.load base status _ hbase⟩, fun activity hactivity => ?_⟩
      cases idle.symm.trans hactivity

omit [DecidableEq Client] in
/-- Nothing of what is done inside of sections is left to be seen. -/
theorem shared_eq (hsimulates : Simulates processor outline config seen)
    (houtside : config.OutsideSections) : seen.shared = config.shared := by
  cases hactivity : config.activities config.running with
  | none => exact (hsimulates.resting hactivity).1
  | some activity =>
      obtain ⟨base, program, -, -, hmatches⟩ := hsimulates.running activity hactivity
      simp only [Activity.Matches, houtside _ activity hactivity] at hmatches
      exact hmatches.2

/-- If no context is stuck as it is seen, none has run into a fault. -/
theorem faultless (hsimulates : Simulates processor outline config seen)
    (hlive : Clients.Live seen) : config.Faultless := by
  intro client activity reason hactivity
  by_cases heq : client = config.running
  · subst heq
    obtain ⟨base, program, -, hbusy, hmatches⟩ := hsimulates.running activity hactivity
    exact hmatches.left_ne_fault (hlive _ _ _ hbusy)
  · obtain ⟨hdepth, hbusy, -⟩ := hsimulates.waiting client activity heq hactivity
    have hmatches : activity.Matches seen.shared seen.shared activity.whole := by
      simp only [Activity.Matches, hdepth, and_self]
    exact hmatches.left_ne_fault (hlive _ _ _ hbusy)

/-- Whenever the processor turns to which context, what the contexts can tell is
what they can in an interleaving of sections that are single steps. -/
theorem reachable {shared : State} {guard : Guard} {first : Client} {statuses : Client → Status}
    {base : Status} (hexcludes : processor.Excludes outline)
    (hbalanced : ∀ request, (clients.perform request).Balanced 0)
    (hvisible : ∀ moves client request, clients.allowed (visible moves) client request →
      clients.allowed moves client request)
    (hguard : outline.settled () base 0 guard)
    (hreachable : processor.Reachable clients (processor.start shared guard first statuses) config) :
    ∃ seen, clients.Reachable shared seen ∧ Simulates processor outline config seen := by
  induction hreachable with
  | refl =>
      refine ⟨_, .refl, rfl, fun _ _ => rfl, nofun, nofun, fun _ => ⟨rfl, base, hguard⟩, nofun⟩
  | tail _ hstep ih =>
      obtain ⟨seen, hseen, hsimulates⟩ := ih
      obtain ⟨after, hafter, hnext⟩ := hsimulates.step hexcludes hbalanced hvisible hstep
      rcases hafter with rfl | hstep
      · exact ⟨_, hseen, hnext⟩
      · exact ⟨_, hseen.tail hstep, hnext⟩

end Simulates

end Processor

/-! ## What was made before a call -/

namespace Clients

variable [DecidableEq Client] {before after : ClientConfig Client State Fault Request Result}

theorem moves_of_step (hstep : clients.Step before after) :
    ∃ move, after.moves = move :: before.moves := by
  cases hstep with
  | call idle isAllowed => exact ⟨_, rfl⟩
  | step running advances => exact ⟨_, rfl⟩
  | finish finished => exact ⟨_, rfl⟩

/-- A call was allowed by the moves before it. -/
theorem Reachable.allowed {start : State} (hreachable : clients.Reachable start after)
    {later earlier : List (Client × ClientMove State Request Result)} {client : Client}
    {request : Request} (hmoves : after.moves = later ++ (client, .called request) :: earlier) :
    ∃ config, clients.Reachable start config ∧ config.moves = earlier ∧
      clients.allowed earlier client request := by
  induction hreachable generalizing later with
  | refl =>
      have hnil : [] = later ++ (client, ClientMove.called request) :: earlier := hmoves
      exact absurd hnil (by simp)
  | @tail config after prior hstep ih =>
      cases later with
      | nil =>
          cases hstep with
          | call idle isAllowed =>
              cases hmoves
              exact ⟨config, prior, rfl, isAllowed⟩
          | step running advances => cases hmoves
          | finish finished => cases hmoves
      | cons move later =>
          obtain ⟨last, hlast⟩ := moves_of_step hstep
          rw [hlast] at hmoves
          exact ih (List.cons.inj hmoves).2

end Clients

/-- What is visible up to a call belongs to a run up to that call. -/
theorem visible_eq_append {moves later earlier : List (Client × ClientMove State Request Result)}
    {client : Client} {request : Request}
    (hmoves : visible moves = later ++ (client, .called request) :: earlier) :
    ∃ rest before, moves = rest ++ (client, .called request) :: before ∧
      visible before = earlier := by
  obtain ⟨rest, tail, rfl, -, htail⟩ := List.filter_eq_append_iff.mp hmoves
  obtain ⟨hidden, before, rfl, -, -, hbefore⟩ := List.filter_eq_cons_iff.mp htail
  exact ⟨rest ++ hidden, before, (List.append_assoc ..).symm, hbefore⟩

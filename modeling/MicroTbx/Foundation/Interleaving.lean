import MicroTbx.Foundation.Sections
import Mathlib.Logic.Function.Basic
import Mathlib.Logic.Relation
import Mathlib.Tactic.Choose

/-! # Interleavings of clients

Contexts make requests to a component at the same time. Each carries out its
own request, and between any two steps another context may take over. The
moves that were made are recorded, and tell what a context may ask for next.

A discipline divides the state among the contexts. Each step is shown to keep
an invariant and whatever the other contexts rely on, so that what a context
knows between its steps survives theirs. States are extended for this purpose
to worlds, which no code reads.
-/

/-- What a context does at one time. -/
inductive ClientMove (State Request Result : Type)
  | called (request : Request)
  | stepped (request : Request) (before after : State)
  | returned (request : Request) (result : Result)

/-- What contexts may ask for, after the moves made so far, and how requests
are carried out. -/
structure Clients (Context State Fault Request Result : Type) where
  allowed : List (Context × ClientMove State Request Result) → Context → Request → Prop
  perform : Request → Program State Fault Result

/-- The shared state, what is left to do in each context, and the moves made,
the newest first. -/
structure ClientConfig (Context State Fault Request Result : Type) where
  shared : State
  busy : Context → Option (Request × Program State Fault Result)
  moves : List (Context × ClientMove State Request Result)

namespace Clients

variable {Context State Fault Request Result : Type} [DecidableEq Context]

/-- One move of one context. -/
inductive Step (clients : Clients Context State Fault Request Result) :
    ClientConfig Context State Fault Request Result →
    ClientConfig Context State Fault Request Result → Prop
  | call {config : ClientConfig Context State Fault Request Result} {context : Context}
      {request : Request} (idle : config.busy context = none)
      (isAllowed : clients.allowed config.moves context request) :
      Step clients config ⟨config.shared,
        Function.update config.busy context (some (request, clients.perform request)),
        (context, .called request) :: config.moves⟩
  | step {config : ClientConfig Context State Fault Request Result} {context : Context}
      {request : Request} {program rest : Program State Fault Result} {after : State}
      (running : config.busy context = some (request, program))
      (advances : program.advance config.shared = some (rest, after)) :
      Step clients config ⟨after, Function.update config.busy context (some (request, rest)),
        (context, .stepped request config.shared after) :: config.moves⟩
  | finish {config : ClientConfig Context State Fault Request Result} {context : Context}
      {request : Request} {result : Result}
      (finished : config.busy context = some (request, .ret result)) :
      Step clients config ⟨config.shared, Function.update config.busy context none,
        (context, .returned request result) :: config.moves⟩

/-- What the contexts can get into from a state, by any interleaving. -/
def Reachable (clients : Clients Context State Fault Request Result) (start : State) :
    ClientConfig Context State Fault Request Result → Prop :=
  Relation.ReflTransGen clients.Step ⟨start, fun _ => none, []⟩

/-- No context is stuck: what it has left to do can go on, or has a result. -/
def Live (config : ClientConfig Context State Fault Request Result) : Prop :=
  ∀ context request program, config.busy context = some (request, program) →
    (∃ result, program = .ret result) ∨
      ∃ rest after, program.advance config.shared = some (rest, after)

/-! ## Executing a schedule -/

/-- What a scheduler may let a context do next. -/
inductive Choice (Request : Type)
  | call (request : Request)
  | step
  | finish

section Schedules

variable (clients : Clients Context State Fault Request Result)
  [∀ moves context request, Decidable (clients.allowed moves context request)]

/-- Let a context make a move, if it can. -/
def move (config : ClientConfig Context State Fault Request Result) (context : Context) :
    Choice Request → Option (ClientConfig Context State Fault Request Result)
  | .call request =>
      match config.busy context with
      | none =>
          if clients.allowed config.moves context request then
            some ⟨config.shared,
              Function.update config.busy context (some (request, clients.perform request)),
              (context, .called request) :: config.moves⟩
          else none
      | some _ => none
  | .step =>
      match config.busy context with
      | some (request, program) =>
          match program.advance config.shared with
          | some (rest, after) =>
              some ⟨after, Function.update config.busy context (some (request, rest)),
                (context, .stepped request config.shared after) :: config.moves⟩
          | none => none
      | none => none
  | .finish =>
      match config.busy context with
      | some (request, .ret result) =>
          some ⟨config.shared, Function.update config.busy context none,
            (context, .returned request result) :: config.moves⟩
      | _ => none

/-- Make the moves of a schedule, in order. -/
def schedule (config : ClientConfig Context State Fault Request Result) :
    List (Context × Choice Request) → Option (ClientConfig Context State Fault Request Result)
  | [] => some config
  | (context, choice) :: later =>
      match clients.move config context choice with
      | none => none
      | some next => schedule next later

variable {clients} {config next : ClientConfig Context State Fault Request Result}
  {context : Context} {choice : Choice Request}

theorem step_of_move (hmove : clients.move config context choice = some next) :
    clients.Step config next := by
  cases choice with
  | call request =>
      simp only [move] at hmove
      split at hmove
      · next idle =>
          split at hmove
          · next isAllowed =>
              cases hmove
              exact .call idle isAllowed
          · cases hmove
      · cases hmove
  | step =>
      simp only [move] at hmove
      split at hmove
      · next request program running =>
          split at hmove
          · next rest after advances =>
              cases hmove
              exact .step running advances
          · cases hmove
      · cases hmove
  | finish =>
      simp only [move] at hmove
      split at hmove
      · next request result finished =>
          cases hmove
          exact .finish finished
      · cases hmove

/-- What a schedule leads to can be reached. -/
theorem steps_of_schedule {choices : List (Context × Choice Request)}
    (hschedule : clients.schedule config choices = some next) :
    Relation.ReflTransGen clients.Step config next := by
  induction choices generalizing config with
  | nil =>
      cases hschedule
      exact .refl
  | cons first later ih =>
      unfold schedule at hschedule
      split at hschedule
      · cases hschedule
      · next middle hmove =>
          exact .head (step_of_move hmove) (ih hschedule)

variable (clients) in
/-- Make the moves of a schedule, in order, if all of them meet a condition. -/
def scheduleMeeting (meets : ClientConfig Context State Fault Request Result →
      ClientConfig Context State Fault Request Result → Prop) [DecidableRel meets]
    (config : ClientConfig Context State Fault Request Result) :
    List (Context × Choice Request) → Option (ClientConfig Context State Fault Request Result)
  | [] => some config
  | (context, choice) :: later =>
      match clients.move config context choice with
      | none => none
      | some next => if meets config next then scheduleMeeting meets next later else none

theorem steps_of_scheduleMeeting {meets : ClientConfig Context State Fault Request Result →
      ClientConfig Context State Fault Request Result → Prop} [DecidableRel meets]
    {choices : List (Context × Choice Request)}
    (hschedule : clients.scheduleMeeting meets config choices = some next) :
    Relation.ReflTransGen (fun before after => clients.Step before after ∧ meets before after)
      config next := by
  induction choices generalizing config with
  | nil =>
      cases hschedule
      exact .refl
  | cons first later ih =>
      unfold scheduleMeeting at hschedule
      split at hschedule
      · cases hschedule
      · next middle hmove =>
          split at hschedule
          · next hmeets => exact .head ⟨step_of_move hmove, hmeets⟩ (ih hschedule)
          · cases hschedule

end Schedules

end Clients

/-! ## Disciplines -/

/-- Worlds are states with more to tell. A context relies on a relation that
holds around every move of the others. `meets` is a condition on the moves of
the runs that are looked at. -/
structure Discipline (Context State Request Result World : Type) where
  state : World → State
  moves : World → List (Context × ClientMove State Request Result)
  inv : World → Prop
  rely : Context → World → World → Prop
  meets : List (Context × ClientMove State Request Result) → Prop
  /-- What a context without a request knows. -/
  idle : Context → World → Prop
  /-- What a context knows when its request has a result. -/
  done : Context → Request → Result → World → Prop

namespace Discipline

variable {Context State Fault Request Result Value Next World : Type}
  (discipline : Discipline Context State Request Result World)

/-- An assertion that what others do cannot make false. -/
def Stable (context : Context) (assertion : World → Prop) : Prop :=
  ∀ world next, assertion world → discipline.inv world → discipline.inv next →
    discipline.meets (discipline.moves next) → discipline.rely context world next →
    assertion next

/-- A move of a context keeps the invariant and what others rely on. -/
structure Makes (context : Context) (move : ClientMove State Request Result)
    (world next : World) : Prop where
  moves : discipline.moves next = (context, move) :: discipline.moves world
  inv : discipline.inv next
  rely : ∀ other, other ≠ context → discipline.rely other world next

/-- From this world on the program keeps to the discipline, whatever others do
between its steps, and returns in a result and world that satisfy the
postcondition. -/
inductive Follows (context : Context) (request : Request) {Value : Type}
    (post : Value → World → Prop) : Program State Fault Value → World → Prop
  | ret {result : Value} {world : World} (stable : discipline.Stable context (post result))
      (holds : post result world) : Follows context request post (.ret result) world
  | advance {program : Program State Fault Value} {world : World} (assertion : World → Prop)
      (stable : discipline.Stable context assertion) (holds : assertion world)
      (left : World → Program State Fault Value) (after : World → State) (next : World → World)
      (advances : ∀ world, assertion world → discipline.inv world →
        program.advance (discipline.state world) = some (left world, after world))
      (makes : ∀ world, assertion world → discipline.inv world →
        discipline.meets ((context, .stepped request (discipline.state world) (after world)) ::
          discipline.moves world) →
        discipline.state (next world) = after world ∧ discipline.Makes context
          (.stepped request (discipline.state world) (after world)) world (next world))
      (follows : ∀ world, assertion world → discipline.inv world →
        discipline.meets ((context, .stepped request (discipline.state world) (after world)) ::
          discipline.moves world) →
        Follows context request post (left world) (next world)) :
      Follows context request post program world

/-- What a discipline must show of the component. -/
structure Sound (clients : Clients Context State Fault Request Result) : Prop where
  suffix : ∀ move moves, discipline.meets (move :: moves) → discipline.meets moves
  idle : ∀ context, discipline.Stable context (discipline.idle context)
  call : ∀ context request world, discipline.inv world → discipline.idle context world →
    clients.allowed (discipline.moves world) context request →
    discipline.meets ((context, .called request) :: discipline.moves world) →
    ∃ next, discipline.state next = discipline.state world ∧
      discipline.Makes context (.called request) world next ∧
      discipline.Follows context request (discipline.done context request)
        (clients.perform request) next
  finish : ∀ context request result world, discipline.inv world →
    discipline.done context request result world →
    discipline.meets ((context, .returned request result) :: discipline.moves world) →
    ∃ next, discipline.state next = discipline.state world ∧
      discipline.Makes context (.returned request result) world next ∧
      discipline.idle context next

/-- A configuration and a world agree. -/
structure Agrees (config : ClientConfig Context State Fault Request Result) (world : World) :
    Prop where
  state : discipline.state world = config.shared
  moves : discipline.moves world = config.moves
  inv : discipline.inv world
  idle : ∀ context, config.busy context = none → discipline.idle context world
  busy : ∀ context request program, config.busy context = some (request, program) →
    discipline.Follows context request (discipline.done context request) program world

variable {discipline} {context : Context} {request : Request} {world next : World}
  {program : Program State Fault Value} {post : Value → World → Prop}

/-! ## Rules -/

namespace Follows

/-- What a program is going to do survives what others do. -/
theorem relied (hfollows : discipline.Follows context request post program world)
    (hinv : discipline.inv world) (hnext : discipline.inv next)
    (hmeets : discipline.meets (discipline.moves next))
    (hrely : discipline.rely context world next) :
    discipline.Follows context request post program next := by
  cases hfollows with
  | ret stable holds => exact .ret stable (stable world next holds hinv hnext hmeets hrely)
  | advance assertion stable holds left after step advances makes follows =>
      exact .advance assertion stable (stable world next holds hinv hnext hmeets hrely) left after
        step advances makes follows

theorem bind {rest : Value → Program State Fault Next} {final : Next → World → Prop}
    (hfollows : discipline.Follows context request post program world)
    (hrest : ∀ result world, post result world →
      discipline.Follows context request final (rest result) world) :
    discipline.Follows context request final (program >>= rest) world := by
  induction hfollows with
  | ret stable holds => exact hrest _ _ holds
  | advance assertion stable holds left after step advances makes follows ih =>
      refine .advance assertion stable holds (fun world => left world >>= rest) after step ?_ makes ih
      exact fun world hworld hinv => Program.advance_bind _ _ (advances world hworld hinv)

/-- One step is taken from each world that the context may find. -/
theorem of_step {assertion : World → Prop} (hstable : discipline.Stable context assertion)
    (hholds : assertion world)
    (hstep : ∀ world, assertion world → discipline.inv world →
      ∃ left after, program.advance (discipline.state world) = some (left, after) ∧
        (discipline.meets ((context, .stepped request (discipline.state world) after) ::
          discipline.moves world) →
        ∃ next, discipline.state next = after ∧ discipline.Makes context
          (.stepped request (discipline.state world) after) world next ∧
          discipline.Follows context request post left next)) :
    discipline.Follows context request post program world := by
  have htotal : ∀ world, ∃ left after next, assertion world → discipline.inv world →
      program.advance (discipline.state world) = some (left, after) ∧
        (discipline.meets ((context, .stepped request (discipline.state world) after) ::
          discipline.moves world) →
        discipline.state next = after ∧ discipline.Makes context
          (.stepped request (discipline.state world) after) world next ∧
          discipline.Follows context request post left next) := by
    intro world
    by_cases hworld : assertion world ∧ discipline.inv world
    · obtain ⟨left, after, hadvance, hspec⟩ := hstep world hworld.1 hworld.2
      by_cases hmeets : discipline.meets
          ((context, .stepped request (discipline.state world) after) :: discipline.moves world)
      · obtain ⟨next, hnext⟩ := hspec hmeets
        exact ⟨left, after, next, fun _ _ => ⟨hadvance, fun _ => hnext⟩⟩
      · exact ⟨left, after, world, fun _ _ => ⟨hadvance, fun hmet => absurd hmet hmeets⟩⟩
    · exact ⟨program, discipline.state world, world,
        fun hassertion hinv => absurd ⟨hassertion, hinv⟩ hworld⟩
  choose left after next hspec using htotal
  apply Follows.advance assertion hstable hholds left after next
  · exact fun world hworld hinv => (hspec world hworld hinv).1
  · intro world hworld hinv hmeets
    obtain ⟨hstate, hmakes, -⟩ := (hspec world hworld hinv).2 hmeets
    exact ⟨hstate, hmakes⟩
  · exact fun world hworld hinv hmeets => ((hspec world hworld hinv).2 hmeets).2.2

/-- A call that is one step is specified as if executed alone, with the world
that it leads to. -/
theorem atomic (hatomic : program.Atomic) {assertion : World → Prop}
    (hstable : discipline.Stable context assertion) (hholds : assertion world)
    (hpost : ∀ result, discipline.Stable context (post result))
    (hreturns : ∀ world, assertion world → discipline.inv world →
      program.Returns (discipline.state world) fun result after =>
        discipline.meets ((context, .stepped request (discipline.state world) after) ::
          discipline.moves world) →
        ∃ next, discipline.state next = after ∧ discipline.Makes context
          (.stepped request (discipline.state world) after) world next ∧ post result next) :
    discipline.Follows context request post program world := by
  apply of_step hstable hholds
  intro world hworld hinv
  obtain ⟨result, after, hadvance, hspec⟩ :=
    hatomic.advance_of_returns (hreturns world hworld hinv)
  refine ⟨.ret result, after, hadvance, fun hmeets => ?_⟩
  obtain ⟨next, hstate, hmakes, hresult⟩ := hspec hmeets
  exact ⟨next, hstate, hmakes, .ret (hpost result) hresult⟩

/-- The result is handed on. -/
theorem map {handed : Value → Next} {final : Next → World → Prop}
    (hfollows : discipline.Follows context request post program world)
    (hstable : ∀ result, discipline.Stable context (final result))
    (himp : ∀ result world, post result world → final (handed result) world) :
    discipline.Follows context request final
      (program >>= fun result => pure (handed result)) world :=
  hfollows.bind fun _ _ hpost => .ret (hstable _) (himp _ _ hpost)

theorem mono {weaker : Value → World → Prop}
    (hfollows : discipline.Follows context request post program world)
    (hstable : ∀ result, discipline.Stable context (weaker result))
    (himp : ∀ result world, post result world → weaker result world) :
    discipline.Follows context request weaker program world := by
  induction hfollows with
  | ret stable holds => exact .ret (hstable _) (himp _ _ holds)
  | advance assertion stable holds left after step advances makes follows ih =>
      exact .advance assertion stable holds left after step advances makes ih

end Follows

/-! ## Soundness -/

variable {clients : Clients Context State Fault Request Result}
  {config after : ClientConfig Context State Fault Request Result}

/-- Contexts that agree with a world are not stuck. -/
theorem Agrees.live (hagrees : discipline.Agrees config world) : Clients.Live config := by
  intro context request program hbusy
  cases hagrees.busy context request program hbusy with
  | @ret result _ stable holds => exact .inl ⟨result, rfl⟩
  | advance assertion stable holds left shared step advances makes follows =>
      refine .inr ⟨left world, shared world, ?_⟩
      rw [← hagrees.state]
      exact advances world holds hagrees.inv

variable [DecidableEq Context]

/-- After a move the context that made it agrees with the new world, and the
others still do. -/
theorem Agrees.makes {move : ClientMove State Request Result} {shared : State}
    {busy : Option (Request × Program State Fault Result)}
    (hsound : discipline.Sound clients) (hagrees : discipline.Agrees config world)
    (hmeets : discipline.meets ((context, move) :: config.moves))
    (hmakes : discipline.Makes context move world next) (hstate : discipline.state next = shared)
    (hidle : busy = none → discipline.idle context next)
    (hbusy : ∀ request program, busy = some (request, program) →
      discipline.Follows context request (discipline.done context request) program next) :
    discipline.Agrees ⟨shared, Function.update config.busy context busy,
      (context, move) :: config.moves⟩ next where
  state := hstate
  moves := by rw [hmakes.moves, hagrees.moves]
  inv := hmakes.inv
  idle := by
    intro other hother
    dsimp only at hother
    by_cases heq : other = context
    · subst heq
      exact hidle (by rwa [Function.update_self] at hother)
    · rw [Function.update_of_ne heq] at hother
      apply hsound.idle other world next (hagrees.idle other hother) hagrees.inv hmakes.inv
      · rw [hmakes.moves, hagrees.moves]
        exact hmeets
      · exact hmakes.rely other heq
  busy := by
    intro other request program hother
    dsimp only at hother
    by_cases heq : other = context
    · subst heq
      exact hbusy request program (by rwa [Function.update_self] at hother)
    · rw [Function.update_of_ne heq] at hother
      apply (hagrees.busy other request program hother).relied hagrees.inv hmakes.inv
      · rw [hmakes.moves, hagrees.moves]
        exact hmeets
      · exact hmakes.rely other heq

theorem Sound.step (hsound : discipline.Sound clients) (hstep : clients.Step config after)
    (hmeets : discipline.meets after.moves) (hagrees : discipline.Agrees config world) :
    ∃ next, discipline.Agrees after next := by
  cases hstep with
  | @call context request idle isAllowed =>
      rw [← hagrees.moves] at isAllowed hmeets
      obtain ⟨next, hstate, hmakes, hfollows⟩ := hsound.call context request world hagrees.inv
        (hagrees.idle context idle) isAllowed hmeets
      rw [hagrees.moves] at hmeets
      refine ⟨next, hagrees.makes hsound hmeets hmakes (hstate.trans hagrees.state) (by simp) ?_⟩
      intro other program hsome
      cases hsome
      exact hfollows
  | @step context request program rest shared running advances =>
      have hfollows := hagrees.busy context request program running
      cases hfollows with
      | ret stable holds => cases advances
      | advance assertion stable holds left shared' step advances' makes follows =>
          have hadvance := advances' world holds hagrees.inv
          rw [hagrees.state, advances] at hadvance
          cases hadvance
          rw [← hagrees.moves, ← hagrees.state] at hmeets
          obtain ⟨hstate, hmakes⟩ := makes world holds hagrees.inv hmeets
          have hrest := follows world holds hagrees.inv hmeets
          rw [hagrees.moves] at hmeets
          rw [hagrees.state] at hmakes hmeets
          refine ⟨step world, hagrees.makes hsound hmeets hmakes hstate (by simp) ?_⟩
          intro other program' hsome
          cases hsome
          exact hrest
  | @finish context request result finished =>
      have hfollows := hagrees.busy context request _ finished
      cases hfollows with
      | advance assertion stable holds left shared' step advances' makes follows =>
          cases advances' world holds hagrees.inv
      | ret stable holds =>
          rw [← hagrees.moves] at hmeets
          obtain ⟨next, hstate, hmakes, hidle⟩ :=
            hsound.finish context request result world hagrees.inv holds hmeets
          rw [hagrees.moves] at hmeets
          exact ⟨next, hagrees.makes hsound hmeets hmakes (hstate.trans hagrees.state)
            (fun _ => hidle) (by simp)⟩

/-- Whatever the interleaving, all contexts keep to a sound discipline as long
as the run meets its condition. -/
theorem Sound.reachable (hsound : discipline.Sound clients) {start : World}
    (hinv : discipline.inv start) (hmoves : discipline.moves start = [])
    (hidle : ∀ context, discipline.idle context start)
    (hreachable : clients.Reachable (discipline.state start) config)
    (hmeets : discipline.meets config.moves) : ∃ world, discipline.Agrees config world := by
  induction hreachable with
  | refl => exact ⟨start, rfl, hmoves, hinv, fun context _ => hidle context, by simp⟩
  | @tail config after prior hstep ih =>
      have hearlier : discipline.meets config.moves := by
        cases hstep with
        | call => exact hsound.suffix _ _ hmeets
        | step => exact hsound.suffix _ _ hmeets
        | finish => exact hsound.suffix _ _ hmeets
      obtain ⟨world, hagrees⟩ := ih hearlier
      exact hsound.step hstep hmeets hagrees

end Discipline

import MicroTbx.Foundation.Processor

/-! # Sections on several cores

Every core runs contexts of its own, which handlers interrupt. All of them act
on one shared state, one action at a time and in any order. The procedures
around sections let a core wait while another one is inside of a section.

If programs act on the shared state only inside of sections, the contexts
cannot tell this from an interleaving in which every outermost section is a
single step.
-/

namespace Program

variable {State Fault Result Next : Type}

/-- On every path the program acts inside of sections only, and leaves all of
them before it returns. -/
def Guarded : Nat → Program State Fault Result → Prop
  | depth, .ret _ => depth = 0
  | _, .fault _ => True
  | 0, .step _ _ => False
  | depth + 1, .step _ next => ∀ state, (next state).Guarded (depth + 1)
  | depth, .enter next => next.Guarded (depth + 1)
  | 0, .leave _ => False
  | depth + 1, .leave next => next.Guarded depth

variable {program : Program State Fault Result} {rest : Result → Program State Fault Next}
  {depth : Nat}

/-- A section in which the program stays until it has its result. -/
theorem Closes.guarded (hprogram : program.Closes depth) : program.Guarded (depth + 1) := by
  induction program generalizing depth with
  | ret result => exact hprogram.elim
  | fault reason => trivial
  | step act next ih => exact fun state => ih state (hprogram state)
  | enter next ih => exact ih hprogram
  | leave next ih =>
      cases depth with
      | zero =>
          obtain ⟨result, rfl⟩ := hprogram
          rfl
      | succ depth => exact ih hprogram

namespace Guarded

@[simp] theorem pure (result : Result) : (Pure.pure result : Program State Fault Result).Guarded 0 :=
  rfl

theorem bind (hprogram : program.Guarded depth) (hrest : ∀ result, (rest result).Guarded 0) :
    (program >>= rest).Guarded depth := by
  induction program generalizing depth with
  | ret result =>
      obtain rfl : depth = 0 := hprogram
      exact hrest result
  | fault reason => trivial
  | step act next ih =>
      cases depth with
      | zero => exact hprogram.elim
      | succ depth => exact fun state => ih state (hprogram state)
  | enter next ih => exact ih hprogram
  | leave next ih =>
      cases depth with
      | zero => exact hprogram.elim
      | succ depth => exact ih hprogram

theorem ite {condition : Prop} [Decidable condition] {other : Program State Fault Result}
    (hyes : program.Guarded depth) (hno : other.Guarded depth) :
    (if condition then program else other).Guarded depth := by
  split
  · exact hyes
  · exact hno

end Guarded

/-- A program in a section of its own. -/
def protect (program : Program State Fault Result) : Program State Fault Result := do
  enterCritical
  let result ← program
  leaveCritical
  return result

theorem Balanced.protect_closes (hprogram : program.Balanced 0) :
    (program >>= fun result => leaveCritical >>= fun _ => .ret result).Closes 0 :=
  Closes.bind hprogram fun result => Closes.leave result

theorem Balanced.protect_atomic (hprogram : program.Balanced 0) : program.protect.Atomic :=
  Atomic.enter hprogram.protect_closes

theorem Balanced.protect_guarded (hprogram : program.Balanced 0) : program.protect.Guarded 0 :=
  Closes.guarded hprogram.protect_closes

/-- In a section a program does what it does without. -/
theorem Returns.protect {state : State} {spec : Result → State → Prop}
    (hreturns : program.Returns state spec) : program.protect.Returns state spec := by
  intro depth
  unfold Program.protect
  simp only [wp_bind, wp_enterCritical]
  apply hreturns.wp
  exact fun result after hspec => ⟨rfl, hspec⟩

end Program

/-- The machine as one of its cores sees it. -/
def Machine.ofCore {Core Guard Status : Type} (machine : Machine Core Guard Status) (core : Core) :
    Machine Unit Guard Status where
  procedure _ := machine.procedure core
  status _ := machine.status core
  interruptible _ := machine.interruptible core
  handlerEntry _ := machine.handlerEntry core
  handlerReturn _ := machine.handlerReturn core
  nestable := machine.nestable

/-- A context of a core, and what is left of the request that it carries out. -/
structure Slot (State Fault Request Result Guard Status : Type) where
  control : Context Guard Status
  task : Option (Request × Program State Fault Result)

/-- The shared state, the state that the procedures around sections act on, and
the contexts of every core, the newest first. A context is known by its core
and by how many others it has interrupted. Only calls and returns are recorded. -/
structure SlotsConfig (Core State Guard Status Fault Request Result : Type) where
  shared : State
  guard : Guard
  slots : Core → List (Slot State Fault Request Result Guard Status)
  moves : List ((Core × Nat) × ClientMove State Request Result)

variable {Core State Guard Status Fault Request Result : Type}

def Slot.idle : Slot State Fault Request Result Guard Status := ⟨.initial, none⟩

namespace SlotsConfig

/-- What the machine knows of the configuration. -/
def control (config : SlotsConfig Core State Guard Status Fault Request Result) :
    Config Core Guard Status :=
  ⟨config.guard, fun core => (config.slots core).map Slot.control⟩

/-- No context is inside of a section. -/
def OutsideSections (config : SlotsConfig Core State Guard Status Fault Request Result) : Prop :=
  ∀ core, ∀ slot ∈ config.slots core, slot.control.depth = 0

/-- No context is about to do what the program gives no meaning to. -/
def Faultless (config : SlotsConfig Core State Guard Status Fault Request Result) : Prop :=
  ∀ core, ∀ slot ∈ config.slots core, ∀ request reason, slot.task ≠ some (request, .fault reason)

end SlotsConfig

namespace Machine

variable [DecidableEq Core]

/-- One step of one core: of its newest context, or to a handler and back. -/
inductive CoreStep (machine : Machine Core Guard Status)
    (clients : Clients (Core × Nat) State Fault Request Result) :
    SlotsConfig Core State Guard Status Fault Request Result →
    SlotsConfig Core State Guard Status Fault Request Result → Prop
  | call {config : SlotsConfig Core State Guard Status Fault Request Result} (core : Core)
      {control : Context Guard Status}
      {below : List (Slot State Fault Request Result Guard Status)} {request : Request}
      (running : config.slots core = ⟨control, none⟩ :: below)
      (isAllowed : clients.allowed config.moves (core, below.length) request) :
      CoreStep machine clients config { config with
        slots := Function.update config.slots core
          (⟨control, some (request, clients.perform request)⟩ :: below)
        moves := ((core, below.length), .called request) :: config.moves }
  | advance {config : SlotsConfig Core State Guard Status Fault Request Result} (core : Core)
      {control : Context Guard Status} {request : Request} {left : Program State Fault Result}
      {below : List (Slot State Fault Request Result Guard Status)}
      (running : config.slots core = ⟨control, some (request, left)⟩ :: below) {shared : State}
      {guard : Guard} {next : Activity State Fault Request Result Guard Status}
      (advances : Activity.advance (machine.ofCore core) ⟨request, left, control⟩ config.shared
        config.guard = some (shared, guard, next)) :
      CoreStep machine clients config { config with
        shared := shared
        guard := guard
        slots := Function.update config.slots core
          (⟨next.control, some (next.request, next.left)⟩ :: below) }
  | finish {config : SlotsConfig Core State Guard Status Fault Request Result} (core : Core)
      {control : Context Guard Status} {request : Request} {result : Result}
      {below : List (Slot State Fault Request Result Guard Status)}
      (running : config.slots core = ⟨control, some (request, .ret result)⟩ :: below)
      (outside : control.current = none) :
      CoreStep machine clients config { config with
        slots := Function.update config.slots core (⟨control, none⟩ :: below)
        moves := ((core, below.length), .returned request result) :: config.moves }
  | interrupt {config : SlotsConfig Core State Guard Status Fault Request Result} (core : Core)
      {slot : Slot State Fault Request Result Guard Status}
      {below : List (Slot State Fault Request Result Guard Status)}
      (running : config.slots core = slot :: below)
      (enabled : machine.interruptible core config.guard = true) :
      CoreStep machine clients config { config with
        guard := machine.handlerEntry core config.guard
        slots := Function.update config.slots core (.idle :: slot :: below) }
  | handlerReturn {config : SlotsConfig Core State Guard Status Fault Request Result} (core : Core)
      {control : Context Guard Status} {slot : Slot State Fault Request Result Guard Status}
      {below : List (Slot State Fault Request Result Guard Status)}
      (running : config.slots core = ⟨control, none⟩ :: slot :: below) :
      CoreStep machine clients config { config with
        guard := machine.handlerReturn core config.guard
        slots := Function.update config.slots core (slot :: below) }

/-- Nothing was called yet. -/
def startCores (_ : Machine Core Guard Status) (shared : State) (guard : Guard) :
    SlotsConfig Core State Guard Status Fault Request Result :=
  ⟨shared, guard, fun _ => [.idle], []⟩

/-- What the cores can get into, in any order of their steps. -/
def CoresReachable (machine : Machine Core Guard Status)
    (clients : Clients (Core × Nat) State Fault Request Result)
    (start : SlotsConfig Core State Guard Status Fault Request Result) :
    SlotsConfig Core State Guard Status Fault Request Result → Prop :=
  Relation.ReflTransGen (machine.CoreStep clients) start

/-! ## Executing a schedule -/

/-- What a core may do next. -/
inductive CoreChoice (Request : Type)
  | call (request : Request)
  | advance
  | finish
  | interrupt
  | handlerReturn

section Schedules

variable (machine : Machine Core Guard Status)
  (clients : Clients (Core × Nat) State Fault Request Result)
  [∀ moves client request, Decidable (clients.allowed moves client request)]

/-- Let a core make a choice, if it can. -/
def coreMove (config : SlotsConfig Core State Guard Status Fault Request Result) (core : Core)
    (choice : CoreChoice Request) :
    Option (SlotsConfig Core State Guard Status Fault Request Result) :=
  match choice, config.slots core with
  | .call request, ⟨control, none⟩ :: below =>
      if clients.allowed config.moves (core, below.length) request then
        some { config with
          slots := Function.update config.slots core
            (⟨control, some (request, clients.perform request)⟩ :: below)
          moves := ((core, below.length), .called request) :: config.moves }
      else none
  | .advance, ⟨control, some (request, left)⟩ :: below =>
      match Activity.advance (machine.ofCore core) ⟨request, left, control⟩ config.shared
          config.guard with
      | none => none
      | some (shared, guard, next) =>
          some { config with
            shared := shared
            guard := guard
            slots := Function.update config.slots core
              (⟨next.control, some (next.request, next.left)⟩ :: below) }
  | .finish, ⟨⟨depth, before, none⟩, some (request, .ret result)⟩ :: below =>
      some { config with
        slots := Function.update config.slots core (⟨⟨depth, before, none⟩, none⟩ :: below)
        moves := ((core, below.length), .returned request result) :: config.moves }
  | .interrupt, slot :: below =>
      if machine.interruptible core config.guard then
        some { config with
          guard := machine.handlerEntry core config.guard
          slots := Function.update config.slots core (.idle :: slot :: below) }
      else none
  | .handlerReturn, ⟨_, none⟩ :: slot :: below =>
      some { config with
        guard := machine.handlerReturn core config.guard
        slots := Function.update config.slots core (slot :: below) }
  | _, _ => none

/-- Make the choices of a schedule, in order. -/
def coreSchedule (config : SlotsConfig Core State Guard Status Fault Request Result) :
    List (Core × CoreChoice Request) →
      Option (SlotsConfig Core State Guard Status Fault Request Result)
  | [] => some config
  | (core, choice) :: later =>
      match machine.coreMove clients config core choice with
      | none => none
      | some next => coreSchedule next later

variable {machine clients} {config next : SlotsConfig Core State Guard Status Fault Request Result}
  {core : Core}

theorem coreStep_of_move {choice : CoreChoice Request}
    (hmove : machine.coreMove clients config core choice = some next) :
    machine.CoreStep clients config next := by
  unfold coreMove at hmove
  split at hmove
  · next running =>
      obtain ⟨isAllowed, heq⟩ := Option.ite_none_right_eq_some.mp hmove
      cases heq
      exact .call core running isAllowed
  · next running =>
      split at hmove
      · cases hmove
      · next advances =>
          cases hmove
          exact .advance core running advances
  · next running =>
      cases hmove
      exact .finish core running rfl
  · next running =>
      obtain ⟨enabled, heq⟩ := Option.ite_none_right_eq_some.mp hmove
      cases heq
      exact .interrupt core running enabled
  · next running =>
      cases hmove
      exact .handlerReturn core running
  · cases hmove

/-- What a schedule leads to can be reached. -/
theorem reachable_of_coreSchedule {choices : List (Core × CoreChoice Request)}
    (hschedule : machine.coreSchedule clients config choices = some next) :
    machine.CoresReachable clients config next := by
  induction choices generalizing config with
  | nil =>
      cases hschedule
      exact .refl
  | cons choice later ih =>
      unfold coreSchedule at hschedule
      split at hschedule
      · cases hschedule
      · next hmove => exact .head (coreStep_of_move hmove) (ih hschedule)

end Schedules

end Machine

/-! ## The machine below -/

namespace SlotsConfig

variable [DecidableEq Core] {machine : Machine Core Guard Status}
  {clients : Clients (Core × Nat) State Fault Request Result}
  {config next : SlotsConfig Core State Guard Status Fault Request Result} {core : Core}
  {below : List (Slot State Fault Request Result Guard Status)}

/-- Where the contexts of one core are replaced, so are the contexts that the
machine knows of. -/
theorem map_update (all : Core → List (Slot State Fault Request Result Guard Status))
    (slots : List (Slot State Fault Request Result Guard Status)) :
    (fun other => (Function.update all core slots other).map Slot.control) =
      Function.update (fun other => (all other).map Slot.control) core
        (slots.map Slot.control) :=
  funext fun other =>
    Function.apply_update (fun _ => List.map Slot.control) all core slots other

/-- A context without a request is outside of all sections. -/
def IdleOutside (config : SlotsConfig Core State Guard Status Fault Request Result) : Prop :=
  ∀ core, ∀ slot ∈ config.slots core, slot.task = none →
    slot.control.current = none ∧ slot.control.depth = 0

/-- An action of a context is one of the machine, or none that it knows of. -/
theorem control_advance {control : Context Guard Status} {request : Request}
    {left : Program State Fault Result} {contexts : Core → List (Context Guard Status)}
    {others : List (Context Guard Status)} {shared after : State} {guard later : Guard}
    {next : Activity State Fault Request Result Guard Status}
    (running : contexts core = control :: others)
    (hadvance : Activity.advance (machine.ofCore core) ⟨request, left, control⟩ shared guard =
      some (after, later, next)) :
    (next.control = control ∧ later = guard) ∨
      machine.Step ⟨guard, contexts⟩ ⟨later, Function.update contexts core (next.control :: others)⟩ := by
  obtain ⟨depth, before, current⟩ := control
  cases current with
  | some call =>
      obtain ⟨crossing, thread⟩ := call
      cases thread with
      | ret result =>
          cases hadvance
          exact .inr (.finish core running rfl)
      | step act rest =>
          obtain ⟨taken, htaken, heq⟩ := Option.map_eq_some_iff.mp hadvance
          cases heq
          exact .inr (.act core running rfl htaken)
  | none =>
      cases left with
      | ret result => cases hadvance
      | fault reason => cases hadvance
      | step act rest =>
          cases hadvance
          exact .inl ⟨rfl, rfl⟩
      | enter rest =>
          obtain ⟨hnestable, heq⟩ := Option.ite_none_right_eq_some.mp hadvance
          cases heq
          exact .inr (.enter core running rfl hnestable)
      | leave rest =>
          obtain ⟨hinside, heq⟩ := Option.ite_none_right_eq_some.mp hadvance
          cases heq
          exact .inr (.exit core running rfl hinside)

theorem control_step (hidle : config.IdleOutside) (hstep : machine.CoreStep clients config next) :
    next.control = config.control ∨ machine.Step config.control next.control := by
  have hcontrol : ∀ {core slots}, config.slots core = slots →
      config.control.contexts core = slots.map Slot.control :=
    fun running => congrArg (List.map Slot.control) running
  have hsame : ∀ {core : Core} {slots others}, config.slots core = slots →
      others.map Slot.control = slots.map Slot.control →
      (fun other => (Function.update config.slots core others other).map Slot.control) =
        fun other => (config.slots other).map Slot.control := by
    intro core slots others running heq
    rw [map_update, heq, ← running, Function.update_eq_self]
  cases hstep with
  | call core running => exact .inl (congrArg (Config.mk config.guard) (hsame running rfl))
  | finish core running => exact .inl (congrArg (Config.mk config.guard) (hsame running rfl))
  | advance core running advances =>
      unfold control
      dsimp only
      rcases control_advance (hcontrol running) advances with ⟨heq, rfl⟩ | hmachine
      · exact .inl (congrArg (Config.mk _) (hsame running (congrArg (· :: _) heq)))
      · rw [map_update]
        exact .inr hmachine
  | interrupt core running enabled =>
      unfold control
      dsimp only
      rw [map_update]
      exact .inr (.interrupt core (hcontrol running) enabled)
  | handlerReturn core running =>
      obtain ⟨hcurrent, hdepth⟩ := hidle core _ (running ▸ List.mem_cons_self) rfl
      unfold control
      dsimp only
      rw [map_update]
      exact .inr (.handlerReturn core (hcontrol running) hcurrent hdepth)

end SlotsConfig

/-! ## One action of a context -/

namespace Activity

variable {machine : Machine Unit Guard Status}
  {activity next : Activity State Fault Request Result Guard Status} {shared after : State}
  {guard later : Guard}

/-- What acts inside of sections only keeps to that. -/
theorem advance_guarded (hguarded : activity.left.Guarded activity.depth)
    (hadvance : activity.advance machine shared guard = some (after, later, next)) :
    next.left.Guarded next.depth := by
  obtain ⟨request, left, depth, before, current⟩ := activity
  cases current with
  | some call =>
      obtain ⟨crossing, thread⟩ := call
      cases thread with
      | ret result =>
          cases hadvance
          cases crossing with
          | enter => exact hguarded
          | exit => exact hguarded
      | step act rest =>
          obtain ⟨taken, -, heq⟩ := Option.map_eq_some_iff.mp hadvance
          cases heq
          cases crossing with
          | enter => exact hguarded
          | exit => exact hguarded
  | none =>
      cases left with
      | ret result => cases hadvance
      | fault reason => cases hadvance
      | step act rest =>
          cases hadvance
          cases depth with
          | zero => exact hguarded.elim
          | succ depth => exact hguarded shared
      | enter rest =>
          obtain ⟨-, heq⟩ := Option.ite_none_right_eq_some.mp hadvance
          cases heq
          cases depth with
          | zero => exact hguarded
          | succ depth => exact hguarded
      | leave rest =>
          obtain ⟨-, heq⟩ := Option.ite_none_right_eq_some.mp hadvance
          cases heq
          cases depth with
          | zero => exact hguarded.elim
          | succ depth => exact hguarded

/-- Outside of sections nothing is done to the shared state. -/
theorem advance_outside (hguarded : activity.left.Guarded activity.depth)
    (houtside : activity.control.depth = 0)
    (hadvance : activity.advance machine shared guard = some (after, later, next)) :
    after = shared ∧ next.Matches shared shared activity.whole := by
  obtain ⟨request, left, depth, before, current⟩ := activity
  obtain rfl : depth = 0 := houtside
  cases current with
  | some call =>
      obtain ⟨crossing, thread⟩ := call
      cases thread with
      | ret result =>
          cases hadvance
          cases crossing with
          | enter => exact ⟨rfl, left, rfl, rfl⟩
          | exit => exact ⟨rfl, rfl, rfl⟩
      | step act rest =>
          obtain ⟨taken, -, heq⟩ := Option.map_eq_some_iff.mp hadvance
          cases heq
          cases crossing with
          | enter => exact ⟨rfl, rfl, rfl⟩
          | exit => exact ⟨rfl, rfl, rfl⟩
  | none =>
      cases left with
      | ret result => cases hadvance
      | fault reason => cases hadvance
      | step act rest => exact hguarded.elim
      | enter rest =>
          obtain ⟨-, heq⟩ := Option.ite_none_right_eq_some.mp hadvance
          cases heq
          exact ⟨rfl, rfl, rfl⟩
      | leave rest => exact hguarded.elim

end Activity

/-! ## The simulation -/

/-- What a context has left to do, and what is seen of it when every section is
a single step: it is before the section that it is in. -/
def Slot.Matches (slot : Slot State Fault Request Result Guard Status) (shared seen : State)
    (busy : Option (Request × Program State Fault Result)) : Prop :=
  match slot.task with
  | none => busy = none ∧ slot.control.current = none ∧ slot.control.depth = 0
  | some (request, left) =>
      left.Guarded (Activity.depth ⟨request, left, slot.control⟩) ∧
        match slot.control.depth with
        | 0 => busy = some (request, Activity.whole ⟨request, left, slot.control⟩)
        | _ + 1 => ∃ program, busy = some (request, program) ∧
            Activity.Matches ⟨request, left, slot.control⟩ shared seen program

theorem Activity.Matches.slot {activity : Activity State Fault Request Result Guard Status}
    {shared seen : State} {program : Program State Fault Result}
    (hmatches : activity.Matches shared seen program)
    (hguarded : activity.left.Guarded activity.depth) :
    Slot.Matches ⟨activity.control, some (activity.request, activity.left)⟩ shared seen
      (some (activity.request, program)) := by
  obtain ⟨request, left, depth, before, current⟩ := activity
  refine ⟨hguarded, ?_⟩
  cases depth with
  | zero =>
      obtain ⟨rfl, -⟩ := hmatches
      rfl
  | succ depth => exact ⟨program, rfl, hmatches⟩

/-- Outside of sections it does not matter what the state is. -/
theorem Slot.Matches.of_outside {slot : Slot State Fault Request Result Guard Status}
    {shared seen other known : State} {busy : Option (Request × Program State Fault Result)}
    (hmatches : slot.Matches shared seen busy) (houtside : slot.control.depth = 0) :
    slot.Matches other known busy := by
  obtain ⟨⟨depth, before, current⟩, task⟩ := slot
  obtain rfl : depth = 0 := houtside
  cases task with
  | none => exact hmatches
  | some task => exact hmatches

namespace Machine

variable {machine : Machine Core Guard Status} {outline : Outline Core Guard Status}
  {owner : Guard → Option Core} {clients : Clients (Core × Nat) State Fault Request Result}
  {config next : SlotsConfig Core State Guard Status Fault Request Result}
  {seen : ClientConfig (Core × Nat) State Fault Request Result} {core : Core}
  {slot : Slot State Fault Request Result Guard Status}
  {below : List (Slot State Fault Request Result Guard Status)}

/-- The procedures have a proof outline in which a core that is inside of a
section is not interrupted, and owns something that only one core can own. -/
structure ExcludesCores (machine : Machine Core Guard Status)
    (outline : Outline Core Guard Status) (owner : Guard → Option Core) : Prop where
  sound : outline.Sound machine
  disabled : ∀ core base depth guard, outline.always core base (depth + 1) guard →
    machine.interruptible core guard = false
  owner : ∀ core base depth guard, outline.always core base (depth + 1) guard →
    owner guard = some core

/-- The contexts keep to the outline, and those that were interrupted are
outside of all sections. -/
structure Ordered (machine : Machine Core Guard Status) (outline : Outline Core Guard Status)
    (config : SlotsConfig Core State Guard Status Fault Request Result) : Prop where
  agrees : ∀ core, outline.Agrees machine core (config.control.contexts core) config.guard
  below : ∀ core slot below, config.slots core = slot :: below →
    ∀ other ∈ below, other.control.depth = 0

namespace Ordered

/-- A core inside of a section is not interrupted and is the owner. -/
theorem inside (hordered : Ordered machine outline config)
    (hexcludes : ExcludesCores machine outline owner) (running : config.slots core = slot :: below)
    (hinside : 0 < slot.control.depth) :
    machine.interruptible core config.guard = false ∧ owner config.guard = some core := by
  obtain ⟨base, context, others, hcontexts, hholds, -⟩ := hordered.agrees core
  have hmap : config.control.contexts core = slot.control :: below.map Slot.control :=
    congrArg (List.map Slot.control) running
  rw [hmap] at hcontexts
  cases hcontexts
  have halways := hholds.always hexcludes.sound
  obtain ⟨depth, hdepth⟩ := Nat.exists_eq_succ_of_ne_zero (Nat.pos_iff_ne_zero.mp hinside)
  rw [hdepth] at halways
  exact ⟨hexcludes.disabled core base depth _ halways, hexcludes.owner core base depth _ halways⟩

/-- While one core is inside of a section no other is. -/
theorem alone (hordered : Ordered machine outline config)
    (hexcludes : ExcludesCores machine outline owner) (running : config.slots core = slot :: below)
    (hinside : 0 < slot.control.depth) (other : Core) (hother : other ≠ core)
    (another : Slot State Fault Request Result Guard Status)
    (hmem : another ∈ config.slots other) : another.control.depth = 0 := by
  by_contra hdepth
  cases hstack : config.slots other with
  | nil =>
      rw [hstack] at hmem
      cases hmem
  | cons top others =>
      rw [hstack] at hmem
      rcases List.mem_cons.mp hmem with rfl | hothers
      · have howner := (hordered.inside hexcludes hstack (Nat.pos_of_ne_zero hdepth)).2
        rw [(hordered.inside hexcludes running hinside).2] at howner
        exact hother (Option.some.inj howner).symm
      · exact hdepth (hordered.below other top others hstack another hothers)

variable [DecidableEq Core]

theorem step (hordered : Ordered machine outline config)
    (hexcludes : ExcludesCores machine outline owner) (hidle : config.IdleOutside)
    (hstep : machine.CoreStep clients config next) : Ordered machine outline next where
  agrees := by
    rcases SlotsConfig.control_step hidle hstep with heq | hmachine
    · have hguard : next.guard = config.guard := congrArg Config.shared heq
      intro core
      rw [hguard, heq]
      exact hordered.agrees core
    · exact hexcludes.sound.step hmachine hordered.agrees
  below := by
    have hupdate : ∀ {core : Core} {slots : List (Slot State Fault Request Result Guard Status)},
        (∀ slot below, slots = slot :: below → ∀ other ∈ below, other.control.depth = 0) →
        ∀ another slot below, Function.update config.slots core slots another = slot :: below →
          ∀ other ∈ below, other.control.depth = 0 := by
      intro core slots hslots another slot below hstack
      by_cases hother : another = core
      · subst hother
        rw [Function.update_self] at hstack
        exact hslots slot below hstack
      · rw [Function.update_of_ne hother] at hstack
        exact hordered.below another slot below hstack
    -- The contexts below the newest stay the ones that they were.
    have hsame : ∀ {core : Core} {top another : Slot State Fault Request Result Guard Status}
        {others : List (Slot State Fault Request Result Guard Status)},
        config.slots core = top :: others → ∀ slot below, another :: others = slot :: below →
          ∀ other ∈ below, other.control.depth = 0 := by
      rintro core top another others running slot below ⟨⟩
      exact hordered.below core top others running
    cases hstep with
    | call core running => exact hupdate (hsame running)
    | advance core running advances => exact hupdate (hsame running)
    | finish core running outside => exact hupdate (hsame running)
    | @interrupt core slot below running enabled =>
        apply hupdate
        rintro _ _ ⟨⟩ other hmem
        rcases List.mem_cons.mp hmem with rfl | hbelow
        · by_contra hdepth
          rw [(hordered.inside hexcludes running (Nat.pos_of_ne_zero hdepth)).1] at enabled
          cases enabled
        · exact hordered.below core slot below running other hbelow
    | handlerReturn core running =>
        apply hupdate
        rintro _ _ ⟨⟩ other hmem
        exact hordered.below core _ _ running other (List.mem_cons_of_mem _ hmem)

end Ordered

/-- What the cores do, and what is seen of it if every section is one step. -/
structure SimulatesCores (machine : Machine Core Guard Status) (outline : Outline Core Guard Status)
    (config : SlotsConfig Core State Guard Status Fault Request Result)
    (seen : ClientConfig (Core × Nat) State Fault Request Result) : Prop where
  moves : visible seen.moves = config.moves
  ordered : Ordered machine outline config
  slots : ∀ core above slot below, config.slots core = above ++ slot :: below →
    slot.Matches config.shared seen.shared (seen.busy (core, below.length))
  unused : ∀ core level, (config.slots core).length ≤ level → seen.busy (core, level) = none
  shared : config.OutsideSections → seen.shared = config.shared

namespace SimulatesCores

/-- The other cores are outside of all sections. -/
def Elsewhere (config : SlotsConfig Core State Guard Status Fault Request Result) (core : Core) :
    Prop :=
  ∀ other, other ≠ core → ∀ slot ∈ config.slots other, slot.control.depth = 0

theorem idleOutside (hsimulates : SimulatesCores machine outline config seen) :
    config.IdleOutside := by
  intro core slot hmem htask
  obtain ⟨above, below, hstack⟩ := List.append_of_mem hmem
  have hmatches := hsimulates.slots core above slot below hstack
  unfold Slot.Matches at hmatches
  rw [htask] at hmatches
  exact hmatches.2

/-- Nothing is hidden while the newest context of a core is outside, like all
other cores. -/
theorem shared_eq (hsimulates : SimulatesCores machine outline config seen)
    (running : config.slots core = slot :: below) (houtside : slot.control.depth = 0)
    (helsewhere : Elsewhere config core) : seen.shared = config.shared := by
  apply hsimulates.shared
  intro other another hmem
  by_cases hother : other = core
  · subst hother
    rw [running] at hmem
    rcases List.mem_cons.mp hmem with rfl | hbelow
    · exact houtside
    · exact hsimulates.ordered.below other slot below running another hbelow
  · exact helsewhere other hother another hmem

variable [DecidableEq Core]

/-- Only the newest context of one core does anything. -/
theorem update (hsimulates : SimulatesCores machine outline config seen)
    (running : config.slots core = slot :: below) {shared : State} {guard : Guard}
    {top : Slot State Fault Request Result Guard Status}
    {after : ClientConfig (Core × Nat) State Fault Request Result}
    {busy : Option (Request × Program State Fault Result)}
    {moves : List ((Core × Nat) × ClientMove State Request Result)}
    (hordered : Ordered machine outline
      ⟨shared, guard, Function.update config.slots core (top :: below), moves⟩)
    (hmoves : visible after.moves = moves)
    (hbusy : after.busy = Function.update seen.busy (core, below.length) busy)
    (htop : top.Matches shared after.shared busy)
    (hothers : (shared = config.shared ∧ after.shared = seen.shared) ∨ Elsewhere config core)
    (hshared : top.control.depth = 0 → Elsewhere config core → after.shared = shared) :
    SimulatesCores machine outline
      ⟨shared, guard, Function.update config.slots core (top :: below), moves⟩ after where
  moves := hmoves
  ordered := hordered
  slots := by
    intro other above another rest hstack
    dsimp only at hstack ⊢
    by_cases hother : other = core
    · subst hother
      rw [Function.update_self] at hstack
      cases above with
      | nil =>
          cases hstack
          rw [hbusy, Function.update_self]
          exact htop
      | cons newest above =>
          have hbelow : below = above ++ another :: rest := (List.cons.inj hstack).2
          subst hbelow
          have hold := hsimulates.slots other (slot :: above) another rest running
          have hne : (other, rest.length) ≠ (other, (above ++ another :: rest).length) := by
            intro heq
            have hlength := congrArg Prod.snd heq
            simp only [List.length_append, List.length_cons] at hlength
            omega
          rw [hbusy, Function.update_of_ne hne]
          exact hold.of_outside (hsimulates.ordered.below other slot _ running another
            (List.mem_append_right _ List.mem_cons_self))
    · rw [Function.update_of_ne hother] at hstack
      have hne : (other, rest.length) ≠ (core, below.length) :=
        fun heq => hother (congrArg Prod.fst heq)
      have hold := hsimulates.slots other above another rest hstack
      rw [hbusy, Function.update_of_ne hne]
      rcases hothers with ⟨rfl, heq⟩ | helsewhere
      · rw [heq]
        exact hold
      · apply hold.of_outside (helsewhere other hother another _)
        rw [hstack]
        exact List.mem_append_right _ List.mem_cons_self
  unused := by
    intro other level hlevel
    dsimp only at hlevel
    by_cases hother : other = core
    · subst hother
      rw [Function.update_self, List.length_cons] at hlevel
      have hne : (other, level) ≠ (other, below.length) := by
        intro heq
        have hlength := congrArg Prod.snd heq
        dsimp only at hlength
        omega
      rw [hbusy, Function.update_of_ne hne]
      apply hsimulates.unused other level
      rw [running]
      exact hlevel
    · rw [Function.update_of_ne hother] at hlevel
      rw [hbusy, Function.update_of_ne fun heq => hother (congrArg Prod.fst heq)]
      exact hsimulates.unused other level hlevel
  shared := by
    intro houtside
    apply hshared
    · apply houtside core
      dsimp only
      rw [Function.update_self]
      exact List.mem_cons_self
    · intro other hother another hmem
      apply houtside other another
      dsimp only
      rw [Function.update_of_ne hother]
      exact hmem

/-- A handler starts, and nothing is seen of it. -/
theorem interrupt (hsimulates : SimulatesCores machine outline config seen)
    (running : config.slots core = slot :: below) {guard : Guard}
    (hordered : Ordered machine outline { config with
      guard := guard
      slots := Function.update config.slots core (.idle :: slot :: below) }) :
    SimulatesCores machine outline { config with
      guard := guard
      slots := Function.update config.slots core (.idle :: slot :: below) } seen where
  moves := hsimulates.moves
  ordered := hordered
  slots := by
    intro other above another rest hstack
    dsimp only at hstack ⊢
    by_cases hother : other = core
    · subst hother
      rw [Function.update_self] at hstack
      cases above with
      | nil =>
          cases hstack
          exact ⟨hsimulates.unused other _ (Nat.le_of_eq (congrArg List.length running)), rfl, rfl⟩
      | cons newest above =>
          exact hsimulates.slots other above another rest
            (running.trans (List.cons.inj hstack).2)
    · rw [Function.update_of_ne hother] at hstack
      exact hsimulates.slots other above another rest hstack
  unused := by
    intro other level hlevel
    dsimp only at hlevel
    apply hsimulates.unused other level
    by_cases hother : other = core
    · subst hother
      rw [Function.update_self] at hlevel
      rw [running]
      exact Nat.le_of_succ_le hlevel
    · rwa [Function.update_of_ne hother] at hlevel
  shared := by
    intro houtside
    apply hsimulates.shared
    intro other another hmem
    apply houtside other another
    dsimp only
    by_cases hother : other = core
    · subst hother
      rw [Function.update_self]
      exact List.mem_cons_of_mem _ (running ▸ hmem)
    · rw [Function.update_of_ne hother]
      exact hmem

/-- A handler without a request returns. -/
theorem handlerReturn (hsimulates : SimulatesCores machine outline config seen)
    {control : Context Guard Status} (running : config.slots core = ⟨control, none⟩ :: slot :: below)
    {guard : Guard} (hordered : Ordered machine outline { config with
      guard := guard
      slots := Function.update config.slots core (slot :: below) }) :
    SimulatesCores machine outline { config with
      guard := guard
      slots := Function.update config.slots core (slot :: below) } seen where
  moves := hsimulates.moves
  ordered := hordered
  slots := by
    intro other above another rest hstack
    dsimp only at hstack ⊢
    by_cases hother : other = core
    · subst hother
      rw [Function.update_self] at hstack
      exact hsimulates.slots other (⟨control, none⟩ :: above) another rest
        (running.trans (congrArg (List.cons _) hstack))
    · rw [Function.update_of_ne hother] at hstack
      exact hsimulates.slots other above another rest hstack
  unused := by
    intro other level hlevel
    dsimp only at hlevel
    by_cases hother : other = core
    · subst hother
      rw [Function.update_self] at hlevel
      rcases Nat.eq_or_lt_of_le hlevel with rfl | hlater
      · exact (hsimulates.slots other [] _ _ running).1
      · apply hsimulates.unused other level
        rw [running]
        exact hlater
    · rw [Function.update_of_ne hother] at hlevel
      exact hsimulates.unused other level hlevel
  shared := by
    intro houtside
    apply hsimulates.shared
    intro other another hmem
    by_cases hother : other = core
    · subst hother
      rw [running] at hmem
      rcases List.mem_cons.mp hmem with rfl | hrest
      · exact (hsimulates.slots other [] _ _ running).2.2
      · apply houtside other another
        dsimp only
        rw [Function.update_self]
        exact hrest
    · apply houtside other another
      dsimp only
      rw [Function.update_of_ne hother]
      exact hmem

/-- An action of a context. Of sections only the end of the outermost is seen. -/
theorem advance (hsimulates : SimulatesCores machine outline config seen)
    (hexcludes : ExcludesCores machine outline owner) {control : Context Guard Status}
    {request : Request} {left : Program State Fault Result}
    (running : config.slots core = ⟨control, some (request, left)⟩ :: below) {shared : State}
    {guard : Guard} {next : Activity State Fault Request Result Guard Status}
    (advances : Activity.advance (machine.ofCore core) ⟨request, left, control⟩ config.shared
      config.guard = some (shared, guard, next))
    (hordered : Ordered machine outline { config with
      shared := shared
      guard := guard
      slots := Function.update config.slots core
        (⟨next.control, some (next.request, next.left)⟩ :: below) }) :
    ∃ after, (after = seen ∨ clients.Step seen after) ∧
      SimulatesCores machine outline { config with
        shared := shared
        guard := guard
        slots := Function.update config.slots core
          (⟨next.control, some (next.request, next.left)⟩ :: below) } after := by
  obtain ⟨hguarded, hbusy⟩ := hsimulates.slots core [] _ below running
  have hnext := Activity.advance_guarded hguarded advances
  have hrequest : next.request = request := Activity.advance_request advances
  subst hrequest
  cases hdepth : control.depth with
  | zero =>
      obtain ⟨rfl, hmatches⟩ := Activity.advance_outside hguarded hdepth advances
      have hslot := hmatches.slot hnext
      have hwhole : seen.busy (core, below.length) =
          some (next.request, Activity.whole ⟨next.request, left, control⟩) := by
        dsimp only at hbusy
        rwa [hdepth] at hbusy
      rw [← hwhole] at hslot
      refine ⟨seen, .inl rfl, hsimulates.update running hordered hsimulates.moves
        (Function.update_eq_self ..).symm ?_ (.inl ⟨rfl, rfl⟩)
        fun _ helsewhere => hsimulates.shared_eq running hdepth helsewhere⟩
      by_cases hinside : next.control.depth = 0
      · exact hslot.of_outside hinside
      · -- Once it is inside, no other core is, so that nothing is hidden.
        have helsewhere : Elsewhere config core := by
          intro other hother another hmem
          apply hordered.alone hexcludes (Function.update_self ..) (Nat.pos_of_ne_zero hinside) other
            hother another
          dsimp only
          rw [Function.update_of_ne hother]
          exact hmem
        rw [hsimulates.shared_eq running hdepth helsewhere]
        exact hslot
  | succ depth =>
      have helsewhere : Elsewhere config core := hsimulates.ordered.alone hexcludes running (by
        rw [hdepth]
        exact Nat.succ_pos depth)
      dsimp only at hbusy
      rw [hdepth] at hbusy
      obtain ⟨program, hprogram, hmatches⟩ := hbusy
      have hshared : ∀ {shown : State} {rest : Program State Fault Result},
          next.Matches shared shown rest → next.control.depth = 0 → shown = shared := by
        intro shown rest hrest hlater
        unfold Activity.Matches at hrest
        rw [hlater] at hrest
        exact hrest.2
      rcases Activity.advance_matches hmatches advances with hsame | ⟨rest, final, hstep, hrest⟩
      · have hslot := hsame.slot hnext
        rw [← hprogram] at hslot
        exact ⟨seen, .inl rfl, hsimulates.update running hordered hsimulates.moves
          (Function.update_eq_self ..).symm hslot (.inr helsewhere)
          fun hlater _ => hshared hsame hlater⟩
      · have hslot := hrest.slot hnext
        exact ⟨_, .inr (.step hprogram hstep), hsimulates.update running hordered
          hsimulates.moves rfl hslot (.inr helsewhere) fun hlater _ => hshared hrest hlater⟩

/-- Every step of a core is a step as it is seen, or nothing is seen. -/
theorem step (hsimulates : SimulatesCores machine outline config seen)
    (hexcludes : ExcludesCores machine outline owner)
    (hguarded : ∀ moves client request, clients.allowed moves client request →
      (clients.perform request).Guarded 0)
    (hvisible : ∀ moves client request, clients.allowed (visible moves) client request →
      clients.allowed moves client request)
    (hstep : machine.CoreStep clients config next) :
    ∃ after, (after = seen ∨ clients.Step seen after) ∧
      SimulatesCores machine outline next after := by
  have hmoves := hsimulates.moves
  have hordered := hsimulates.ordered.step hexcludes hsimulates.idleOutside hstep
  cases hstep with
  | @call core control below request running isAllowed =>
      obtain ⟨hidle, hcurrent, hdepth⟩ := hsimulates.slots core [] _ below running
      have hperform := hguarded _ _ _ isAllowed
      rw [← hmoves] at isAllowed
      refine ⟨_, .inr (.call hidle (hvisible _ _ _ isAllowed)), ?_⟩
      refine hsimulates.update running hordered (congrArg (_ :: ·) hmoves) rfl ?_ (.inl ⟨rfl, rfl⟩)
        fun hoff helsewhere => hsimulates.shared_eq running hoff helsewhere
      obtain ⟨depth, before, current⟩ := control
      obtain rfl : current = none := hcurrent
      obtain rfl : depth = 0 := hdepth
      exact ⟨hperform, rfl⟩
  | @advance core control request left below running shared guard following advances =>
      exact hsimulates.advance hexcludes running advances hordered
  | @finish core control request result below running outside =>
      obtain ⟨hzero, hbusy⟩ := hsimulates.slots core [] _ below running
      obtain ⟨depth, before, current⟩ := control
      obtain rfl : current = none := outside
      obtain rfl : depth = 0 := hzero
      refine ⟨_, .inr (.finish hbusy), ?_⟩
      exact hsimulates.update running hordered (congrArg (_ :: ·) hmoves) rfl ⟨rfl, rfl, rfl⟩
        (.inl ⟨rfl, rfl⟩) fun hoff helsewhere => hsimulates.shared_eq running hoff helsewhere
  | interrupt core running enabled => exact ⟨seen, .inl rfl, hsimulates.interrupt running hordered⟩
  | handlerReturn core running => exact ⟨seen, .inl rfl, hsimulates.handlerReturn running hordered⟩

omit [DecidableEq Core] in
/-- If no context is stuck as it is seen, none has run into a fault. -/
theorem faultless (hsimulates : SimulatesCores machine outline config seen)
    (hlive : Clients.Live seen) : config.Faultless := by
  intro core slot hmem request reason htask
  obtain ⟨above, below, hstack⟩ := List.append_of_mem hmem
  obtain ⟨control, task⟩ := slot
  obtain rfl : task = some (request, .fault reason) := htask
  obtain ⟨-, hbusy⟩ := hsimulates.slots core above _ below hstack
  dsimp only at hbusy
  have hoff : ∀ activity : Activity State Fault Request Result Guard Status,
      activity.control.depth = 0 → activity.Matches seen.shared seen.shared activity.whole := by
    intro activity houtside
    simp only [Activity.Matches, houtside, and_self]
  cases hdepth : control.depth with
  | zero =>
      rw [hdepth] at hbusy
      exact (hoff ⟨request, .fault reason, control⟩ hdepth).left_ne_fault (hlive _ _ _ hbusy) rfl
  | succ depth =>
      rw [hdepth] at hbusy
      obtain ⟨program, hprogram, hmatches⟩ := hbusy
      exact hmatches.left_ne_fault (hlive _ _ _ hprogram) rfl

/-- In whatever order the cores make their steps, what the contexts can tell is
what they can in an interleaving of sections that are single steps. -/
theorem reachable {shared : State} {guard : Guard} (hexcludes : ExcludesCores machine outline owner)
    (hguarded : ∀ moves client request, clients.allowed moves client request →
      (clients.perform request).Guarded 0)
    (hvisible : ∀ moves client request, clients.allowed (visible moves) client request →
      clients.allowed moves client request)
    (hguard : ∀ core, ∃ base, outline.settled core base 0 guard)
    (hreachable : machine.CoresReachable clients (machine.startCores shared guard) config) :
    ∃ seen, clients.Reachable shared seen ∧ SimulatesCores machine outline config seen := by
  induction hreachable with
  | refl =>
      refine ⟨_, .refl, rfl, ⟨fun core => ?_, ?_⟩, ?_, fun _ _ _ => rfl, fun _ => rfl⟩
      · obtain ⟨base, hbase⟩ := hguard core
        refine ⟨base, _, [], rfl, ⟨fun hinside => ?_, hbase⟩, trivial⟩
        rcases hinside with hpos | hsome
        · exact absurd hpos (Nat.lt_irrefl 0)
        · cases hsome
      · rintro core _ _ ⟨⟩ other hmem
        cases hmem
      · intro core above slot below hstack
        cases above with
        | nil =>
            cases hstack
            exact ⟨rfl, rfl, rfl⟩
        | cons newest above =>
            have hnil := (List.cons.inj hstack).2
            simp at hnil
  | tail _ hstep ih =>
      obtain ⟨seen, hseen, hsimulates⟩ := ih
      obtain ⟨after, hafter, hnext⟩ := hsimulates.step hexcludes hguarded hvisible hstep
      rcases hafter with rfl | hstep
      · exact ⟨_, hseen, hnext⟩
      · exact ⟨_, hseen.tail hstep, hnext⟩

end SimulatesCores

end Machine

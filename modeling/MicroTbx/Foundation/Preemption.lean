import Mathlib.Logic.Function.Basic
import Mathlib.Logic.Relation
import Mathlib.Tactic.Basic

/-! # Nested sections under preemption

Contexts on several cores enter and leave sections over a shared state,
properly nested but otherwise whenever they like. Entering and leaving are
procedures made of atomic steps. A core runs the newest of its contexts; while
its interrupts are enabled a handler may start, which is a further context and
returns when it is outside all sections. Threads of an operating system are
cores that are never interrupted.

A proof outline gives an assertion for every point of the procedures. Each
assertion survives what other cores do, which is the relied relation, and
whole handlers on the own core.
-/

/-- Code made of atomic steps. A step is blocked in the states in which its
action yields nothing. -/
inductive Thread (State Result : Type) : Type
  | ret (result : Result)
  | step (act : State → Option State) (next : State → Thread State Result)

namespace Thread

variable {State Result Next : Type}

def bind : Thread State Result → (Result → Thread State Next) → Thread State Next
  | .ret result, rest => rest result
  | .step act next, rest => .step act fun state => (next state).bind rest

instance : Monad (Thread State) where
  pure := .ret
  bind := bind

/-- One step with a result that is read from the state before it. -/
def atomic (act : State → Option State) (result : State → Result) : Thread State Result :=
  .step act fun before => .ret (result before)

def get (observe : State → Result) : Thread State Result := atomic some observe

def modify (act : State → State) : Thread State Unit := atomic (fun state => some (act state))
  fun _ => ()

/-- Execute without interruption. A step that is blocked ends the execution. -/
def run : Thread State Result → State → Option (Result × State)
  | .ret result, state => some (result, state)
  | .step act next, state => (act state).bind fun after => (next state).run after

@[simp] theorem run_pure (result : Result) (state : State) :
    (pure result : Thread State Result).run state = some (result, state) := rfl

@[simp] theorem run_atomic (act : State → Option State) (result : State → Result) (state : State) :
    (atomic act result).run state = (act state).map fun after => (result state, after) := by
  cases hact : act state <;> simp [atomic, run, hact]

@[simp] theorem run_get (observe : State → Result) (state : State) :
    (get observe).run state = some (observe state, state) := rfl

@[simp] theorem run_modify (act : State → State) (state : State) :
    (modify act).run state = some ((), act state) := rfl

@[simp] theorem run_bind (thread : Thread State Result) (rest : Result → Thread State Next)
    (state : State) : (thread >>= rest).run state =
      (thread.run state).bind fun done => (rest done.1).run done.2 := by
  induction thread generalizing state with
  | ret result => rfl
  | step act next ih =>
      change (act state).bind (fun after => (next state >>= rest).run after) =
        ((act state).bind fun after => (next state).run after).bind fun done =>
          (rest done.1).run done.2
      cases act state with
      | none => rfl
      | some after => exact ih state after

/-! ## Guarantees -/

/-- From states that satisfy an invariant, every step of the thread keeps it
and does what is guaranteed. -/
def Keeps (inv : State → Prop) (guarantee : State → State → Prop) : Thread State Result → Prop
  | .ret _ => True
  | .step act next =>
      (∀ before after, inv before → act before = some after → inv after ∧ guarantee before after) ∧
        ∀ before, inv before → Keeps inv guarantee (next before)

variable {inv : State → Prop} {guarantee : State → State → Prop}

theorem keeps_ret (result : Result) :
    (pure result : Thread State Result).Keeps inv guarantee := trivial

theorem keeps_atomic {act : State → Option State} {result : State → Result}
    (hact : ∀ before after, inv before → act before = some after →
      inv after ∧ guarantee before after) : (atomic act result).Keeps inv guarantee :=
  ⟨hact, fun _ _ => trivial⟩

theorem keeps_modify {act : State → State}
    (hact : ∀ before, inv before → inv (act before) ∧ guarantee before (act before)) :
    (modify act).Keeps inv guarantee := by
  apply keeps_atomic
  intro before after hbefore htaken
  cases htaken
  exact hact before hbefore

theorem keeps_bind {thread : Thread State Result} {rest : Result → Thread State Next}
    (hthread : thread.Keeps inv guarantee) (hrest : ∀ result, (rest result).Keeps inv guarantee) :
    (thread >>= rest).Keeps inv guarantee := by
  induction thread with
  | ret result => exact hrest result
  | step act next ih =>
      exact ⟨hthread.1, fun before hbefore => ih before (hthread.2 before hbefore)⟩

/-- What is read from a state that satisfies the invariant is known behind. -/
theorem keeps_get_bind {observe : State → Result} {rest : Result → Thread State Next}
    (hrefl : ∀ state, guarantee state state)
    (hrest : ∀ state, inv state → (rest (observe state)).Keeps inv guarantee) :
    (get observe >>= rest).Keeps inv guarantee := by
  refine ⟨fun before after hbefore htaken => ?_, hrest⟩
  cases htaken
  exact ⟨hbefore, hrefl before⟩

end Thread

/-- The two procedures around a section. -/
inductive Crossing
  | enter
  | exit
  deriving DecidableEq

/-- A main program or an interrupt handler. No code reads the status that is
remembered here. -/
structure Context (State Status : Type) where
  /-- Sections that were entered and not yet asked to be left. -/
  depth : Nat
  /-- The interrupt status when the outermost entry was called. -/
  before : Option Status
  /-- The procedure that is being executed. -/
  current : Option (Crossing × Thread State Unit)

namespace Context

variable {State Status : Type}

def initial : Context State Status := ⟨0, none, none⟩

def callEnter (context : Context State Status) (status : Status)
    (thread : Thread State Unit) : Context State Status where
  depth := context.depth
  before := if context.depth = 0 then some status else context.before
  current := some (.enter, thread)

def callExit (context : Context State Status) (thread : Thread State Unit) :
    Context State Status where
  depth := context.depth - 1
  before := context.before
  current := some (.exit, thread)

def finish (context : Context State Status) (crossing : Crossing) : Context State Status where
  depth := match crossing with
    | .enter => context.depth + 1
    | .exit => context.depth
  before := context.before
  current := none

end Context

/-- The procedures and the interrupt hardware of every core. -/
structure Machine (Core State Status : Type) where
  procedure : Core → Crossing → Thread State Unit
  status : Core → State → Status
  interruptible : Core → State → Bool
  handlerEntry : Core → State → State
  handlerReturn : Core → State → State
  /-- Whether a section may be entered at this nesting depth. -/
  nestable : Nat → Bool

/-- The shared state and the contexts of every core, the newest first. -/
structure Config (Core State Status : Type) where
  shared : State
  contexts : Core → List (Context State Status)

namespace Machine

variable {Core State Status : Type} [DecidableEq Core]

/-- One step of one core. -/
inductive Step (machine : Machine Core State Status) :
    Config Core State Status → Config Core State Status → Prop
  | enter {config : Config Core State Status} (core : Core) {context : Context State Status}
      {below : List (Context State Status)} (running : config.contexts core = context :: below)
      (idle : context.current = none) (nestable : machine.nestable context.depth = true) :
      Step machine config ⟨config.shared, Function.update config.contexts core
        (context.callEnter (machine.status core config.shared)
          (machine.procedure core .enter) :: below)⟩
  | exit {config : Config Core State Status} (core : Core) {context : Context State Status}
      {below : List (Context State Status)} (running : config.contexts core = context :: below)
      (idle : context.current = none) (inside : 0 < context.depth) :
      Step machine config ⟨config.shared, Function.update config.contexts core
        (context.callExit (machine.procedure core .exit) :: below)⟩
  | act {config : Config Core State Status} (core : Core) {context : Context State Status}
      {below : List (Context State Status)} (running : config.contexts core = context :: below)
      {crossing : Crossing} {act : State → Option State} {next : State → Thread State Unit}
      (executing : context.current = some (crossing, .step act next)) {after : State}
      (taken : act config.shared = some after) :
      Step machine config ⟨after, Function.update config.contexts core
        ({ context with current := some (crossing, next config.shared) } :: below)⟩
  | finish {config : Config Core State Status} (core : Core) {context : Context State Status}
      {below : List (Context State Status)} (running : config.contexts core = context :: below)
      {crossing : Crossing} (executed : context.current = some (crossing, .ret ())) :
      Step machine config ⟨config.shared, Function.update config.contexts core
        (context.finish crossing :: below)⟩
  | interrupt {config : Config Core State Status} (core : Core) {context : Context State Status}
      {below : List (Context State Status)} (running : config.contexts core = context :: below)
      (enabled : machine.interruptible core config.shared = true) :
      Step machine config ⟨machine.handlerEntry core config.shared,
        Function.update config.contexts core (.initial :: context :: below)⟩
  | handlerReturn {config : Config Core State Status} (core : Core)
      {handler context : Context State Status} {below : List (Context State Status)}
      (running : config.contexts core = handler :: context :: below)
      (idle : handler.current = none) (outside : handler.depth = 0) :
      Step machine config ⟨machine.handlerReturn core config.shared,
        Function.update config.contexts core (context :: below)⟩

/-- Every core runs one context, outside all sections. -/
def start (_ : Machine Core State Status) (shared : State) : Config Core State Status :=
  ⟨shared, fun _ => [.initial]⟩

/-- What the machine can get into from a shared state, by any interleaving. -/
def Reachable (machine : Machine Core State Status) (shared : State) :
    Config Core State Status → Prop :=
  Relation.ReflTransGen machine.Step (machine.start shared)

/-- The invariant holds, and whatever the contexts are executing keeps it. -/
structure Keeping (inv : State → Prop) (guarantee : Crossing → State → State → Prop)
    (config : Config Core State Status) : Prop where
  shared : inv config.shared
  threads : ∀ core, ∀ context ∈ config.contexts core, ∀ crossing thread,
    context.current = some (crossing, thread) → thread.Keeps inv (guarantee crossing)

/-- If the procedures keep an invariant, so does every step. -/
theorem Keeping.step {machine : Machine Core State Status} {inv : State → Prop}
    {guarantee : Crossing → State → State → Prop} {config next : Config Core State Status}
    (hkeeping : Keeping inv guarantee config)
    (hprocedure : ∀ core crossing, (machine.procedure core crossing).Keeps inv (guarantee crossing))
    (hentry : ∀ core state, inv state → inv (machine.handlerEntry core state))
    (hreturn : ∀ core state, inv state → inv (machine.handlerReturn core state))
    (hstep : machine.Step config next) : Keeping inv guarantee next := by
  -- Only the contexts of the core that makes the step are others than before.
  have hthreads : ∀ (core : Core) contexts, (∀ context ∈ contexts, ∀ crossing thread,
      context.current = some (crossing, thread) → thread.Keeps inv (guarantee crossing)) →
      ∀ other, ∀ context ∈ Function.update config.contexts core contexts other,
        ∀ crossing thread, context.current = some (crossing, thread) →
          thread.Keeps inv (guarantee crossing) := by
    intro core contexts hcontexts other
    by_cases heq : other = core
    · subst heq
      rw [Function.update_self]
      exact hcontexts
    · rw [Function.update_of_ne heq]
      exact hkeeping.threads other
  have hbelow : ∀ {core : Core} {context below}, config.contexts core = context :: below →
      ∀ next : Context State Status, (∀ crossing thread, next.current = some (crossing, thread) →
        thread.Keeps inv (guarantee crossing)) → ∀ context ∈ next :: below, ∀ crossing thread,
          context.current = some (crossing, thread) → thread.Keeps inv (guarantee crossing) := by
    intro core context below running next hnext other hmem
    rcases List.mem_cons.mp hmem with rfl | hmem
    · exact hnext
    · exact hkeeping.threads core other (running ▸ List.mem_cons_of_mem _ hmem)
  cases hstep with
  | enter core running =>
      refine ⟨hkeeping.shared, hthreads core _ (hbelow running _ ?_)⟩
      intro crossing thread hcurrent
      cases hcurrent
      exact hprocedure core .enter
  | exit core running =>
      refine ⟨hkeeping.shared, hthreads core _ (hbelow running _ ?_)⟩
      intro crossing thread hcurrent
      cases hcurrent
      exact hprocedure core .exit
  | act core running executing taken =>
      obtain ⟨hact, hnext⟩ := hkeeping.threads core _ (running ▸ List.mem_cons_self) _ _ executing
      refine ⟨(hact _ _ hkeeping.shared taken).1, hthreads core _ (hbelow running _ ?_)⟩
      intro crossing thread hcurrent
      cases hcurrent
      exact hnext _ hkeeping.shared
  | finish core running =>
      refine ⟨hkeeping.shared, hthreads core _ (hbelow running _ ?_)⟩
      intro crossing thread hcurrent
      cases hcurrent
  | interrupt core running =>
      refine ⟨hentry core _ hkeeping.shared, hthreads core _ ?_⟩
      intro context hmem crossing thread hcurrent
      rcases List.mem_cons.mp hmem with rfl | hmem
      · cases hcurrent
      · exact hkeeping.threads core context (running ▸ hmem) crossing thread hcurrent
  | handlerReturn core running =>
      refine ⟨hreturn core _ hkeeping.shared, hthreads core _ ?_⟩
      exact fun context hmem => hkeeping.threads core context
        (running ▸ List.mem_cons_of_mem _ hmem)

/-- A core that cannot be interrupted gets no further context. -/
theorem length_le_of_step {machine : Machine Core State Status} {core : Core}
    {config next : Config Core State Status}
    (hoff : machine.interruptible core config.shared = false) (hstep : machine.Step config next) :
    (next.contexts core).length ≤ (config.contexts core).length := by
  have hupdate : ∀ (other : Core) contexts,
      (other = core → contexts.length ≤ (config.contexts core).length) →
      (Function.update config.contexts other contexts core).length ≤
        (config.contexts core).length := by
    intro other contexts hlength
    by_cases heq : other = core
    · subst heq
      rw [Function.update_self]
      exact hlength rfl
    · simp only [Function.update_of_ne (Ne.symm heq), Nat.le_refl]
  cases hstep with
  | enter other running => exact hupdate _ _ (by rintro rfl; simp [running])
  | exit other running => exact hupdate _ _ (by rintro rfl; simp [running])
  | act other running => exact hupdate _ _ (by rintro rfl; simp [running])
  | finish other running => exact hupdate _ _ (by rintro rfl; simp [running])
  | handlerReturn other running => exact hupdate _ _ (by rintro rfl; simp [running])
  | interrupt other running enabled =>
      apply hupdate
      rintro rfl
      rw [hoff] at enabled
      cases enabled

/-! ## Executing a schedule -/

/-- What a scheduler may let a core do next. -/
inductive Move
  | enter
  | exit
  | act
  | finish
  | interrupt
  | handlerReturn
  deriving DecidableEq

/-- Let a core make a move, if it can. -/
def move (machine : Machine Core State Status) (config : Config Core State Status) (core : Core)
    (choice : Move) : Option (Config Core State Status) :=
  match choice, config.contexts core with
  | .enter, ⟨depth, before, none⟩ :: below =>
      if machine.nestable depth then
        some ⟨config.shared, Function.update config.contexts core
          (Context.callEnter ⟨depth, before, none⟩ (machine.status core config.shared)
            (machine.procedure core .enter) :: below)⟩
      else none
  | .exit, ⟨depth, before, none⟩ :: below =>
      if 0 < depth then
        some ⟨config.shared, Function.update config.contexts core
          (Context.callExit ⟨depth, before, none⟩ (machine.procedure core .exit) :: below)⟩
      else none
  | .act, ⟨depth, before, some (crossing, .step act next)⟩ :: below =>
      match act config.shared with
      | some after =>
          some ⟨after, Function.update config.contexts core
            (⟨depth, before, some (crossing, next config.shared)⟩ :: below)⟩
      | none => none
  | .finish, ⟨depth, before, some (crossing, .ret ())⟩ :: below =>
      some ⟨config.shared, Function.update config.contexts core
        (Context.finish ⟨depth, before, some (crossing, .ret ())⟩ crossing :: below)⟩
  | .interrupt, context :: below =>
      if machine.interruptible core config.shared then
        some ⟨machine.handlerEntry core config.shared,
          Function.update config.contexts core (.initial :: context :: below)⟩
      else none
  | .handlerReturn, ⟨0, _, none⟩ :: context :: below =>
      some ⟨machine.handlerReturn core config.shared,
        Function.update config.contexts core (context :: below)⟩
  | _, _ => none

theorem step_of_move {machine : Machine Core State Status} {config next : Config Core State Status}
    {core : Core} {choice : Move} (hmove : machine.move config core choice = some next) :
    machine.Step config next := by
  unfold move at hmove
  split at hmove
  · next running =>
      split at hmove
      · next hnestable =>
          cases hmove
          exact .enter core running rfl hnestable
      · cases hmove
  · next running =>
      split at hmove
      · next hinside =>
          cases hmove
          exact .exit core running rfl hinside
      · cases hmove
  · next running =>
      split at hmove
      · next htaken =>
          cases hmove
          exact .act core running rfl htaken
      · cases hmove
  · next running =>
      cases hmove
      exact .finish core running rfl
  · next running =>
      split at hmove
      · next henabled =>
          cases hmove
          exact .interrupt core running henabled
      · cases hmove
  · next running =>
      cases hmove
      exact .handlerReturn core running rfl rfl
  · cases hmove

/-- The part of a schedule in which one core makes these moves. -/
def turn (core : Core) (choices : List Move) : List (Core × Move) :=
  choices.map fun choice => (core, choice)

/-- Carry out a schedule from a configuration. -/
def schedule (machine : Machine Core State Status) :
    List (Core × Move) → Config Core State Status → Option (Config Core State Status)
  | [], config => some config
  | (core, choice) :: later, config =>
      match machine.move config core choice with
      | some next => schedule machine later next
      | none => none

theorem reachable_of_schedule {machine : Machine Core State Status}
    {config final : Config Core State Status} {shared : State} {moves : List (Core × Move)}
    (hreachable : machine.Reachable shared config)
    (hschedule : machine.schedule moves config = some final) :
    machine.Reachable shared final := by
  induction moves generalizing config with
  | nil =>
      cases hschedule
      exact hreachable
  | cons head later ih =>
      unfold schedule at hschedule
      split at hschedule
      · next hmove => exact ih (hreachable.tail (step_of_move hmove)) hschedule
      · cases hschedule

/-- Carry out a schedule as long as every configuration passes a check. -/
def scheduleWhile (machine : Machine Core State Status) (check : Config Core State Status → Bool) :
    List (Core × Move) → Config Core State Status → Option (Config Core State Status)
  | [], config => some config
  | (core, choice) :: later, config =>
      if check config then
        match machine.move config core choice with
        | some next => scheduleWhile machine check later next
        | none => none
      else none

theorem steps_of_scheduleWhile {machine : Machine Core State Status}
    {check : Config Core State Status → Bool}
    {meets : Config Core State Status → Config Core State Status → Prop}
    (hcheck : ∀ before after, check before = true → meets before after)
    {config final : Config Core State Status} {moves : List (Core × Move)}
    (hschedule : machine.scheduleWhile check moves config = some final) :
    Relation.ReflTransGen (fun before after => machine.Step before after ∧ meets before after)
      config final := by
  induction moves generalizing config with
  | nil =>
      cases hschedule
      exact .refl
  | cons head later ih =>
      unfold scheduleWhile at hschedule
      split at hschedule
      · next hchecked =>
          split at hschedule
          · next hmove =>
              exact .head ⟨step_of_move hmove, hcheck _ _ hchecked⟩ (ih hschedule)
          · cases hschedule
      · cases hschedule

end Machine

/-! ## Proof outlines -/

/-- The assertions of a proof outline. They speak about a context of a core by
its base, the interrupt status at which it is outside all sections. -/
structure Outline (Core State Status : Type) where
  /-- What the core relies on of a step of another core. -/
  rely : Core → State → State → Prop
  /-- The context is between two calls, at this depth. -/
  settled : Core → Status → Nat → State → Prop
  /-- What holds at every moment of a context at this depth. -/
  always : Core → Status → Nat → State → Prop

namespace Outline

variable {Core State Status Result Next : Type} (machine : Machine Core State Status)
  (outline : Outline Core State Status)

/-- The assertion may be used at a point of a context: it survives other cores
and whole handlers, and where a handler can start nothing is held. -/
structure Stable (core : Core) (base : Status) (depth : Nat) (assertion : State → Prop) :
    Prop where
  always : ∀ state, assertion state → outline.always core base depth state
  relied : ∀ before after, assertion before → outline.rely core before after → assertion after
  settled : ∀ state, assertion state → machine.interruptible core state = true →
    outline.settled core base 0 state
  resumed : ∀ before after, assertion before → machine.interruptible core before = true →
    outline.settled core base 0 after → assertion after

/-- Each step of the thread has a stable assertion in front of it, does what
other cores rely on, and leads to the next assertion. -/
def Follows (core : Core) (base : Status) (depth : Nat) :
    Thread State Result → (Result → State → Prop) → State → Prop
  | .ret result, post, state => post result state
  | .step act next, post, state =>
      ∃ assertion, outline.Stable machine core base depth assertion ∧ assertion state ∧
        ∀ before after, assertion before → act before = some after →
          (∀ other, other ≠ core → outline.rely other before after) ∧
            Follows core base depth (next before) post after

/-- What has to be shown of an outline. -/
structure Sound : Prop where
  always_of_succ : ∀ core base depth state, outline.always core base (depth + 1) state →
    outline.always core base depth state
  stable : ∀ core base depth, outline.Stable machine core base depth
    (outline.settled core base depth)
  status : ∀ core base state, outline.settled core base 0 state → machine.status core state = base
  enter : ∀ core base depth state, machine.nestable depth = true →
    outline.settled core base depth state →
    outline.Follows machine core base depth (machine.procedure core .enter)
      (fun _ => outline.settled core base (depth + 1)) state
  exit : ∀ core base depth state, outline.settled core base (depth + 1) state →
    outline.Follows machine core base depth (machine.procedure core .exit)
      (fun _ => outline.settled core base depth) state
  /-- A handler starts settled, and once it is settled again it returns to
  where the context below was settled. -/
  handler : ∀ core base state, outline.settled core base 0 state →
    machine.interruptible core state = true →
    ∃ above, outline.settled core above 0 (machine.handlerEntry core state) ∧
      ∀ after, outline.settled core above 0 after →
        outline.settled core base 0 (machine.handlerReturn core after)
  handlerEntry : ∀ core other state, other ≠ core →
    outline.rely other state (machine.handlerEntry core state)
  handlerReturn : ∀ core other state, other ≠ core →
    outline.rely other state (machine.handlerReturn core state)

variable {machine outline} {core : Core} {base : Status} {depth : Nat} {state : State}

theorem follows_ret {result : Result} {post : Result → State → Prop} (hpost : post result state) :
    outline.Follows machine core base depth (pure result) post state :=
  hpost

/-- The rule for one atomic step. -/
theorem follows_atomic {act : State → Option State} {result : State → Result}
    {post : Result → State → Prop} {assertion : State → Prop}
    (hstable : outline.Stable machine core base depth assertion) (hstate : assertion state)
    (hact : ∀ before after, assertion before → act before = some after →
      (∀ other, other ≠ core → outline.rely other before after) ∧ post (result before) after) :
    outline.Follows machine core base depth (.atomic act result) post state :=
  ⟨assertion, hstable, hstate, hact⟩

theorem follows_get {observe : State → Result} {post : Result → State → Prop}
    {assertion : State → Prop} (hrefl : ∀ other state, outline.rely other state state)
    (hstable : outline.Stable machine core base depth assertion) (hstate : assertion state)
    (hpost : ∀ state, assertion state → post (observe state) state) :
    outline.Follows machine core base depth (.get observe) post state := by
  apply follows_atomic hstable hstate
  rintro before _ hbefore ⟨⟩
  exact ⟨fun other _ => hrefl other before, hpost before hbefore⟩

theorem follows_modify {act : State → State} {post : Unit → State → Prop}
    {assertion : State → Prop} (hstable : outline.Stable machine core base depth assertion)
    (hstate : assertion state) (hact : ∀ before, assertion before →
      (∀ other, other ≠ core → outline.rely other before (act before)) ∧ post () (act before)) :
    outline.Follows machine core base depth (.modify act) post state := by
  apply follows_atomic hstable hstate
  rintro before _ hbefore ⟨⟩
  exact hact before hbefore

theorem follows_bind {thread : Thread State Result} {rest : Result → Thread State Next}
    {post : Next → State → Prop} (middle : Result → State → Prop)
    (hthread : outline.Follows machine core base depth thread middle state)
    (hrest : ∀ result after, middle result after →
      outline.Follows machine core base depth (rest result) post after) :
    outline.Follows machine core base depth (thread >>= rest) post state := by
  induction thread generalizing state with
  | ret result => exact hrest result state hthread
  | step act next ih =>
      obtain ⟨assertion, hstable, hstate, hact⟩ := hthread
      refine ⟨assertion, hstable, hstate, fun before after hbefore htaken => ?_⟩
      obtain ⟨hrely, hnext⟩ := hact before after hbefore htaken
      exact ⟨hrely, ih before hnext⟩

/-- Read a value that the assertion determines, and go on with it. -/
theorem follows_get_bind {observe : State → Result} {value : Result}
    {rest : Result → Thread State Next} {post : Next → State → Prop} {assertion : State → Prop}
    (hrefl : ∀ other state, outline.rely other state state)
    (hstable : outline.Stable machine core base depth assertion) (hstate : assertion state)
    (hvalue : ∀ state, assertion state → observe state = value)
    (hrest : ∀ after, assertion after →
      outline.Follows machine core base depth (rest value) post after) :
    outline.Follows machine core base depth (.get observe >>= rest) post state := by
  apply follows_bind fun result after => result = value ∧ assertion after
  · exact follows_get hrefl hstable hstate fun after hafter => ⟨hvalue after hafter, hafter⟩
  · rintro _ after ⟨rfl, hafter⟩
    exact hrest after hafter

/-- Change the state from one assertion to the next, and go on. -/
theorem follows_modify_bind {act : State → State} {rest : Unit → Thread State Next}
    {post : Next → State → Prop} {assertion : State → Prop} (reached : State → Prop)
    (hstable : outline.Stable machine core base depth assertion) (hstate : assertion state)
    (hact : ∀ before, assertion before →
      (∀ other, other ≠ core → outline.rely other before (act before)) ∧ reached (act before))
    (hrest : ∀ after, reached after →
      outline.Follows machine core base depth (rest ()) post after) :
    outline.Follows machine core base depth (.modify act >>= rest) post state :=
  follows_bind (fun _ => reached) (follows_modify hstable hstate hact)
    fun _ after hafter => hrest after hafter

/-- A thread that follows an outline may be executed without interruption. -/
theorem Follows.run {thread : Thread State Result} {post : Result → State → Prop}
    {result : Result} {after : State}
    (hfollows : outline.Follows machine core base depth thread post state)
    (hrun : thread.run state = some (result, after)) : post result after := by
  induction thread generalizing state with
  | ret result =>
      cases hrun
      exact hfollows
  | step act next ih =>
      obtain ⟨assertion, -, hstate, hact⟩ := hfollows
      obtain ⟨middle, htaken, hrest⟩ := Option.bind_eq_some_iff.mp hrun
      exact ih state (hact state middle hstate htaken).2 hrest

/-! ## Soundness -/

variable (machine outline) in
/-- The running context of a core agrees with the outline. -/
def Holds (core : Core) (base : Status) (context : Context State Status) (state : State) : Prop :=
  (0 < context.depth ∨ context.current.isSome → context.before = some base) ∧
    match context.current with
    | none => outline.settled core base context.depth state
    | some (.enter, thread) => outline.Follows machine core base context.depth thread
        (fun _ => outline.settled core base (context.depth + 1)) state
    | some (.exit, thread) => outline.Follows machine core base context.depth thread
        (fun _ => outline.settled core base context.depth) state

variable (machine outline) in
/-- The contexts below one with the given base. Each agrees with the outline
wherever the one above it can return to. -/
def Suspended (core : Core) : Status → List (Context State Status) → Prop
  | _, [] => True
  | above, context :: below =>
      ∃ base, (∀ state, outline.settled core above 0 state →
          outline.settled core base 0 (machine.handlerReturn core state)) ∧
        (∀ state, outline.settled core base 0 state → outline.Holds machine core base context state) ∧
        Suspended core base below

variable (machine outline) in
/-- All contexts of a core agree with the outline. -/
def Agrees (core : Core) (contexts : List (Context State Status)) (state : State) : Prop :=
  ∃ base context below, contexts = context :: below ∧ outline.Holds machine core base context state ∧
    outline.Suspended machine core base below

theorem Stable.of_succ (hsound : outline.Sound machine) {assertion : State → Prop}
    (hstable : outline.Stable machine core base (depth + 1) assertion) :
    outline.Stable machine core base depth assertion where
  always state hstate := hsound.always_of_succ core base depth state (hstable.always state hstate)
  relied := hstable.relied
  settled := hstable.settled
  resumed := hstable.resumed

/-- Whatever the running context is doing, a stable assertion holds from which
it goes on. -/
theorem Holds.stable (hsound : outline.Sound machine) {context : Context State Status}
    (hholds : outline.Holds machine core base context state) :
    ∃ assertion, outline.Stable machine core base context.depth assertion ∧ assertion state ∧
      ∀ after, assertion after → outline.Holds machine core base context after := by
  obtain ⟨depth, before, current⟩ := context
  obtain ⟨hbefore, hcurrent⟩ := hholds
  cases current with
  | none =>
      exact ⟨_, hsound.stable core base depth, hcurrent, fun after hafter => ⟨hbefore, hafter⟩⟩
  | some call =>
      obtain ⟨crossing, thread⟩ := call
      cases thread with
      | ret result =>
          cases crossing with
          | enter =>
              exact ⟨_, (hsound.stable core base (depth + 1)).of_succ hsound, hcurrent,
                fun after hafter => ⟨hbefore, hafter⟩⟩
          | exit =>
              exact ⟨_, hsound.stable core base depth, hcurrent,
                fun after hafter => ⟨hbefore, hafter⟩⟩
      | step act next =>
          cases crossing with
          | enter =>
              obtain ⟨assertion, hstable, hstate, hact⟩ := hcurrent
              exact ⟨assertion, hstable, hstate,
                fun after hafter => ⟨hbefore, assertion, hstable, hafter, hact⟩⟩
          | exit =>
              obtain ⟨assertion, hstable, hstate, hact⟩ := hcurrent
              exact ⟨assertion, hstable, hstate,
                fun after hafter => ⟨hbefore, assertion, hstable, hafter, hact⟩⟩

theorem Holds.always (hsound : outline.Sound machine) {context : Context State Status}
    (hholds : outline.Holds machine core base context state) :
    outline.always core base context.depth state := by
  obtain ⟨assertion, hstable, hstate, _⟩ := hholds.stable hsound
  exact hstable.always state hstate

theorem Agrees.relied (hsound : outline.Sound machine) {contexts : List (Context State Status)}
    {after : State} (hagrees : outline.Agrees machine core contexts state)
    (hrely : outline.rely core state after) : outline.Agrees machine core contexts after := by
  obtain ⟨base, context, below, rfl, hholds, hsuspended⟩ := hagrees
  obtain ⟨assertion, hstable, hstate, hback⟩ := hholds.stable hsound
  exact ⟨base, context, below, rfl, hback after (hstable.relied state after hstate hrely),
    hsuspended⟩

/-- Every step keeps all contexts in agreement with the outline. -/
theorem Sound.step [DecidableEq Core] (hsound : outline.Sound machine)
    {config next : Config Core State Status} (hstep : machine.Step config next)
    (hagrees : ∀ core, outline.Agrees machine core (config.contexts core) config.shared) :
    ∀ core, outline.Agrees machine core (next.contexts core) next.shared := by
  -- The core that makes the step is replaced, all others rely on what it does.
  have hframe : ∀ (core : Core) (contexts : List (Context State Status)) (after : State),
      (∀ other, other ≠ core → outline.rely other config.shared after) →
      outline.Agrees machine core contexts after →
      ∀ other, outline.Agrees machine other
        (Function.update config.contexts core contexts other) after := by
    intro core contexts after hrely hcore other
    by_cases heq : other = core
    · subst heq
      rw [Function.update_self]
      exact hcore
    · rw [Function.update_of_ne heq]
      exact (hagrees other).relied hsound (hrely other heq)
  have hsame : ∀ (core : Core) (contexts : List (Context State Status)),
      outline.Agrees machine core contexts config.shared →
      ∀ other, outline.Agrees machine other
        (Function.update config.contexts core contexts other) config.shared := by
    intro core contexts hcore other
    by_cases heq : other = core
    · subst heq
      rw [Function.update_self]
      exact hcore
    · rw [Function.update_of_ne heq]
      exact hagrees other
  cases hstep with
  | @enter core context below running idle nestable =>
      obtain ⟨base, _, _, heq, ⟨hbefore, hcurrent⟩, hsuspended⟩ := hagrees core
      rw [running] at heq
      cases heq
      simp only [idle] at hbefore hcurrent
      apply hsame
      refine ⟨base, _, below, rfl, ⟨fun _ => ?_, ?_⟩, hsuspended⟩
      · unfold Context.callEnter
        by_cases hdepth : context.depth = 0
        · rw [hdepth] at hcurrent
          simp [hdepth, hsound.status core base _ hcurrent]
        · simp only [hdepth, if_false]
          exact hbefore (.inl (Nat.pos_of_ne_zero hdepth))
      · exact hsound.enter core base context.depth _ nestable hcurrent
  | @exit core context below running idle inside =>
      obtain ⟨base, _, _, heq, ⟨hbefore, hcurrent⟩, hsuspended⟩ := hagrees core
      rw [running] at heq
      cases heq
      simp only [idle] at hbefore hcurrent
      apply hsame
      refine ⟨base, _, below, rfl, ⟨fun _ => hbefore (.inl inside), ?_⟩, hsuspended⟩
      apply hsound.exit core base (context.depth - 1)
      rwa [Nat.sub_add_cancel inside]
  | @act core context below running crossing act rest executing after taken =>
      obtain ⟨base, _, _, heq, ⟨hbefore, hcurrent⟩, hsuspended⟩ := hagrees core
      rw [running] at heq
      cases heq
      simp only [executing] at hbefore hcurrent
      cases crossing with
      | enter =>
          obtain ⟨assertion, hstable, hstate, hact⟩ := hcurrent
          obtain ⟨hrely, hnext⟩ := hact _ _ hstate taken
          exact hframe core _ after hrely
            ⟨base, _, below, rfl, ⟨fun _ => hbefore (.inr rfl), hnext⟩, hsuspended⟩
      | exit =>
          obtain ⟨assertion, hstable, hstate, hact⟩ := hcurrent
          obtain ⟨hrely, hnext⟩ := hact _ _ hstate taken
          exact hframe core _ after hrely
            ⟨base, _, below, rfl, ⟨fun _ => hbefore (.inr rfl), hnext⟩, hsuspended⟩
  | @finish core context below running crossing executed =>
      obtain ⟨base, _, _, heq, ⟨hbefore, hcurrent⟩, hsuspended⟩ := hagrees core
      rw [running] at heq
      cases heq
      simp only [executed] at hbefore hcurrent
      apply hsame
      cases crossing with
      | enter =>
          exact ⟨base, _, below, rfl, ⟨fun _ => hbefore (.inr rfl), hcurrent⟩, hsuspended⟩
      | exit =>
          exact ⟨base, _, below, rfl, ⟨fun _ => hbefore (.inr rfl), hcurrent⟩, hsuspended⟩
  | @interrupt core context below running enabled =>
      obtain ⟨base, _, _, heq, hholds, hsuspended⟩ := hagrees core
      rw [running] at heq
      cases heq
      obtain ⟨assertion, hstable, hstate, hback⟩ := hholds.stable hsound
      have hsettled := hstable.settled _ hstate enabled
      obtain ⟨above, hentry, hreturn⟩ := hsound.handler core base _ hsettled enabled
      apply hframe core _ _ fun other hne => hsound.handlerEntry core other _ hne
      refine ⟨above, _, _, rfl, ⟨fun hinside => ?_, hentry⟩, base, hreturn, ?_, hsuspended⟩
      · simp [Context.initial] at hinside
      · exact fun after hafter => hback after (hstable.resumed _ after hstate enabled hafter)
  | @handlerReturn core handler context below running idle outside =>
      obtain ⟨above, _, _, heq, ⟨_, hcurrent⟩, hbelow⟩ := hagrees core
      rw [running] at heq
      cases heq
      obtain ⟨base, hreturn, hholds, hsuspended⟩ := hbelow
      simp only [idle, outside] at hcurrent
      apply hframe core _ _ fun other hne => hsound.handlerReturn core other _ hne
      exact ⟨base, context, below, rfl, hholds _ (hreturn _ hcurrent), hsuspended⟩

/-- Whatever the interleaving, all contexts stay in agreement with a sound
outline. -/
theorem Sound.reachable [DecidableEq Core] (hsound : outline.Sound machine) {start : State}
    (hstart : ∀ core, ∃ base, outline.settled core base 0 start)
    {config : Config Core State Status} (hreachable : machine.Reachable start config) :
    ∀ core, outline.Agrees machine core (config.contexts core) config.shared := by
  induction hreachable with
  | refl =>
      intro core
      obtain ⟨base, hbase⟩ := hstart core
      exact ⟨base, _, [], rfl, ⟨by simp [Context.initial], hbase⟩, trivial⟩
  | tail prior hstep ih => exact hsound.step hstep ih

end Outline

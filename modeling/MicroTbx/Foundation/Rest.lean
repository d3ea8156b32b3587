import MicroTbx.Foundation.Multiprocessor
import Mathlib.Data.DFinsupp.WellFounded
import Mathlib.Data.List.Shortlex
import Mathlib.SetTheory.Cardinal.Order

/-! # Coming to rest

Cores that are left alone, without further calls and handlers, finish what they
have begun. Nothing of it goes on forever, since every action leaves less of a
program or of a procedure. A core that cannot act waits for something that
another core owns, and the owner can act.

That a core waits for nothing else is shown of a machine in which a step that is
blocked for no reason fails: what its procedures never do is fail.
-/

namespace Thread

variable {State Result Next : Type}

/-- The thread, except that a step fails if it is blocked and has nothing to
wait for. -/
def checked (waits : State → Prop) [DecidablePred waits] (fail : State → State) :
    Thread State Result → Thread State Result
  | .ret result => .ret result
  | .step act next => .step
      (fun state => match act state with
        | some after => some after
        | none => if waits state then none else some (fail state))
      fun state => (next state).checked waits fail

/-- No step is ever blocked. -/
def Total : Thread State Result → Prop
  | .ret _ => True
  | .step act next => ∀ state, act state ≠ none ∧ (next state).Total

variable {waits : State → Prop} [DecidablePred waits] {fail : State → State}
  {thread : Thread State Result} {rest : Result → Thread State Next}

theorem checked_bind : (thread >>= rest).checked waits fail =
    thread.checked waits fail >>= fun result => (rest result).checked waits fail := by
  induction thread with
  | ret result => rfl
  | step act next ih => exact congrArg (Thread.step _) (funext ih)

namespace Total

theorem checked_eq (hthread : thread.Total) : thread.checked waits fail = thread := by
  induction thread with
  | ret result => rfl
  | step act next ih =>
      have hact : (fun state => match act state with
          | some after => some after
          | none => if waits state then none else some (fail state)) = act := by
        funext state
        cases htaken : act state with
        | none => exact absurd htaken (hthread state).1
        | some after => rfl
      unfold checked
      rw [hact]
      exact congrArg (Thread.step act) (funext fun state => ih state (hthread state).2)

@[simp] theorem pure (result : Result) : (Pure.pure result : Thread State Result).Total := trivial

@[simp] theorem get (observe : State → Result) : (Thread.get observe).Total :=
  fun _ => ⟨Option.some_ne_none _, trivial⟩

@[simp] theorem modify (act : State → State) : (Thread.modify act).Total :=
  fun _ => ⟨Option.some_ne_none _, trivial⟩

theorem bind (hthread : thread.Total) (hrest : ∀ result, (rest result).Total) :
    (thread >>= rest).Total := by
  induction thread with
  | ret result => exact hrest result
  | step act next ih => exact fun state => ⟨(hthread state).1, ih state (hthread state).2⟩

theorem ite {condition : Prop} [Decidable condition] {other : Thread State Result}
    (hyes : thread.Total) (hno : other.Total) : (if condition then thread else other).Total := by
  split
  · exact hyes
  · exact hno

end Total

@[simp] theorem checked_get (observe : State → Result) :
    (Thread.get observe).checked waits fail = Thread.get observe := (Total.get observe).checked_eq

@[simp] theorem checked_modify (act : State → State) :
    (Thread.modify act).checked waits fail = Thread.modify act := (Total.modify act).checked_eq

@[simp] theorem checked_pure (result : Result) :
    (pure result : Thread State Result).checked waits fail = pure result := rfl

end Thread

/-! ## What a blocked step waits for -/

section Checked

variable {Core State Status : Type} (waits : Core → State → Prop)
  [∀ core, DecidablePred (waits core)] (fail : Core → State → State)

/-- The machine with procedures in which blocked steps fail. -/
def Machine.checked (machine : Machine Core State Status) : Machine Core State Status :=
  { machine with
    procedure := fun core crossing =>
      (machine.procedure core crossing).checked (waits core) (fail core) }

def Context.checked (core : Core) (context : Context State Status) : Context State Status :=
  { context with
    current := context.current.map fun call => (call.1, call.2.checked (waits core) (fail core)) }

def Config.checked (config : Config Core State Status) : Config Core State Status :=
  ⟨config.shared, fun core => (config.contexts core).map (Context.checked waits fail core)⟩

variable {waits fail} [DecidableEq Core] {machine : Machine Core State Status}
  {outline : Outline Core State Status} {config next : Config Core State Status} {start : State}

theorem Config.checked_update {core : Core} (shared : State)
    (contexts : List (Context State Status)) :
    Config.checked waits fail ⟨shared, Function.update config.contexts core contexts⟩ =
      ⟨shared, Function.update (config.checked waits fail).contexts core
        (contexts.map (Context.checked waits fail core))⟩ := by
  unfold checked
  congr 1
  funext other
  exact Function.apply_update (fun core => List.map (Context.checked waits fail core)) config.contexts
    core contexts other

omit [DecidableEq Core] in
theorem Context.checked_current {core : Core} {context : Context State Status} {crossing : Crossing}
    {thread : Thread State Unit} (hcurrent : context.current = some (crossing, thread)) :
    (context.checked waits fail core).current =
      some (crossing, thread.checked (waits core) (fail core)) := by
  simp [checked, hcurrent]

omit [DecidableEq Core] in
theorem Context.checked_idle {core : Core} {context : Context State Status}
    (hcurrent : context.current = none) : (context.checked waits fail core).current = none := by
  simp [checked, hcurrent]

/-- What the machine does, it does as well where blocked steps fail. -/
theorem Machine.Step.checked (hstep : machine.Step config next) :
    (machine.checked waits fail).Step (config.checked waits fail) (next.checked waits fail) := by
  have hcontexts : ∀ {core context below}, config.contexts core = context :: below →
      (config.checked waits fail).contexts core =
        context.checked waits fail core :: below.map (Context.checked waits fail core) :=
    fun running => congrArg (List.map _) running
  cases hstep with
  | enter core running idle nestable =>
      rw [Config.checked_update]
      exact .enter core (hcontexts running) (Context.checked_idle idle) nestable
  | exit core running idle inside =>
      have hnext : (machine.checked waits fail).Step (config.checked waits fail) _ :=
        .exit core (hcontexts running) (Context.checked_idle idle) inside
      rw [Config.checked_update]
      exact hnext
  | @act core context below running crossing act rest executing after taken =>
      have htaken : (match act config.shared with
          | some after => some after
          | none => if waits core config.shared then none else some (fail core config.shared)) =
            some after := by
        rw [taken]
      have hnext : (machine.checked waits fail).Step (config.checked waits fail) _ :=
        .act core (hcontexts running) (Context.checked_current executing) htaken
      rw [Config.checked_update]
      exact hnext
  | finish core running executed =>
      have hnext : (machine.checked waits fail).Step (config.checked waits fail) _ :=
        .finish core (hcontexts running) (Context.checked_current executed)
      rw [Config.checked_update]
      exact hnext
  | interrupt core running enabled =>
      rw [Config.checked_update]
      exact .interrupt core (hcontexts running) enabled
  | handlerReturn core running idle outside =>
      rw [Config.checked_update]
      exact .handlerReturn core (hcontexts running) (Context.checked_idle idle) outside

/-- If nothing fails where blocked steps fail, a step that is blocked waits. -/
theorem Outline.Sound.waits_of_blocked (hsound : outline.Sound (machine.checked waits fail))
    (hfail : ∀ core base depth state, ¬ outline.always core base depth (fail core state))
    (hstart : ∀ core, ∃ base, outline.settled core base 0 start)
    (hreachable : machine.Reachable start config) {core : Core} {context : Context State Status}
    {below : List (Context State Status)} (running : config.contexts core = context :: below)
    {crossing : Crossing} {act : State → Option State} {rest : State → Thread State Unit}
    (executing : context.current = some (crossing, .step act rest))
    (hblocked : act config.shared = none) : waits core config.shared := by
  by_contra hwaits
  have hchecked : (machine.checked waits fail).Reachable start (config.checked waits fail) := by
    clear running hblocked hwaits
    induction hreachable with
    | refl => exact .refl
    | tail _ hstep ih => exact ih.tail hstep.checked
  -- The step can be taken, and fails.
  have htaken : (match act config.shared with
      | some after => some after
      | none => if waits core config.shared then none else some (fail core config.shared)) =
        some (fail core config.shared) := by
    rw [hblocked]
    exact if_neg hwaits
  have hstep : (machine.checked waits fail).Step (config.checked waits fail) _ :=
    .act core (congrArg (List.map _) running) (Context.checked_current executing) htaken
  obtain ⟨base, failed, others, -, hholds, -⟩ := hsound.reachable hstart (hchecked.tail hstep) core
  exact hfail core base _ _ (hholds.always hsound)

end Checked

/-! ## How deep programs nest sections -/

namespace Program

variable {State Fault Result Next : Type}

/-- On every path the program enters at most so many sections at a time, and
leaves them, beside the sections that it was entered in, before it returns. -/
def Bounded : Nat → Nat → Program State Fault Result → Prop
  | _, depth, .ret _ => depth = 0
  | _, _, .fault _ => True
  | room, depth, .step _ next => ∀ state, (next state).Bounded room depth
  | 0, _, .enter _ => False
  | room + 1, depth, .enter next => next.Bounded room (depth + 1)
  | _, 0, .leave _ => False
  | room, depth + 1, .leave next => next.Bounded (room + 1) depth

namespace Bounded

variable {program : Program State Fault Result} {rest : Result → Program State Fault Next}
  {room depth : Nat}

theorem bind {outer : Nat} (hprogram : program.Bounded room depth)
    (hrest : ∀ result, (rest result).Bounded (room + depth) outer) :
    (program >>= rest).Bounded room (depth + outer) := by
  induction program generalizing room depth with
  | ret result =>
      obtain rfl : depth = 0 := hprogram
      rw [Nat.zero_add]
      exact hrest result
  | fault reason => trivial
  | step act next ih => exact fun state => ih state (hprogram state) hrest
  | enter next ih =>
      cases room with
      | zero => exact hprogram.elim
      | succ room =>
          change (next >>= rest).Bounded room (depth + outer + 1)
          rw [Nat.add_right_comm]
          apply ih hprogram
          rwa [← Nat.add_assoc, Nat.add_right_comm]
  | leave next ih =>
      cases depth with
      | zero => exact hprogram.elim
      | succ depth =>
          rw [Nat.add_right_comm]
          apply ih hprogram
          rwa [Nat.add_right_comm, Nat.add_assoc]

/-- A part of a program that is bounded by itself. -/
theorem part (hprogram : program.Bounded room 0)
    (hrest : ∀ result, (rest result).Bounded room depth) :
    (program >>= rest).Bounded room depth := by
  have hbind := hprogram.bind hrest
  rwa [Nat.zero_add] at hbind

theorem ite {condition : Prop} [Decidable condition] {other : Program State Fault Result}
    (hyes : program.Bounded room depth) (hno : other.Bounded room depth) :
    (if condition then program else other).Bounded room depth := by
  split
  · exact hyes
  · exact hno

@[simp] theorem pure (result : Result) :
    (Pure.pure result : Program State Fault Result).Bounded room 0 := by
  cases room <;> rfl

@[simp] theorem fault (reason : Fault) :
    (.fault reason : Program State Fault Result).Bounded room depth := by
  cases room <;> trivial

@[simp] theorem read : (read : Program State Fault State).Bounded room 0 := by
  cases room <;> exact fun _ => rfl

@[simp] theorem modify (act : State → State) :
    (modify act : Program State Fault Unit).Bounded room 0 := by
  cases room <;> exact fun _ => rfl

theorem enter {rest : Unit → Program State Fault Next} (hrest : (rest ()).Bounded room (depth + 1)) :
    (enterCritical >>= rest).Bounded (room + 1) depth := hrest

theorem leave {rest : Unit → Program State Fault Next} (hrest : (rest ()).Bounded (room + 1) depth) :
    (leaveCritical >>= rest).Bounded room (depth + 1) := by
  cases room <;> exact hrest

theorem leave_unit : (leaveCritical : Program State Fault Unit).Bounded room 1 := by
  cases room <;> rfl

theorem protect (hprogram : program.Bounded room 0) : program.protect.Bounded (room + 1) 0 :=
  enter (hprogram.part fun result => leave (pure result))

theorem of_step {act : State → State} {next : State → Program State Fault Result}
    (hstep : (step act next).Bounded room depth) (state : State) :
    (next state).Bounded room depth := by
  cases room <;> exact hstep state

theorem of_enter {next : Program State Fault Result} (henter : next.enter.Bounded room depth) :
    ∃ fewer, room = fewer + 1 ∧ next.Bounded fewer (depth + 1) := by
  cases room with
  | zero => exact henter.elim
  | succ fewer => exact ⟨fewer, rfl, henter⟩

theorem of_leave {next : Program State Fault Result} (hleave : next.leave.Bounded room depth) :
    ∃ lower, depth = lower + 1 ∧ next.Bounded (room + 1) lower := by
  cases depth with
  | zero => cases room <;> exact hleave.elim
  | succ lower => exact ⟨lower, rfl, by cases room <;> exact hleave⟩

end Bounded

end Program

variable {Core State Guard Status Fault Request Result : Type}

namespace Activity

variable {machine : Machine Unit Guard Status}
  {activity next : Activity State Fault Request Result Guard Status} {shared after : State}
  {guard later : Guard} {bound : Nat}

/-- The program enters no more sections than the bound allows. -/
def Fits (bound : Nat) (activity : Activity State Fault Request Result Guard Status) : Prop :=
  ∃ room, room + activity.depth = bound ∧ activity.left.Bounded room activity.depth

theorem Fits.advance (hfits : activity.Fits bound)
    (hadvance : activity.advance machine shared guard = some (after, later, next)) :
    next.Fits bound := by
  obtain ⟨request, left, depth, before, current⟩ := activity
  obtain ⟨room, hroom, hbounded⟩ := hfits
  cases current with
  | some call =>
      obtain ⟨crossing, thread⟩ := call
      cases thread with
      | ret result =>
          cases hadvance
          cases crossing with
          | enter => exact ⟨room, hroom, hbounded⟩
          | exit => exact ⟨room, hroom, hbounded⟩
      | step act rest =>
          obtain ⟨taken, -, heq⟩ := Option.map_eq_some_iff.mp hadvance
          cases heq
          cases crossing with
          | enter => exact ⟨room, hroom, hbounded⟩
          | exit => exact ⟨room, hroom, hbounded⟩
  | none =>
      cases left with
      | ret result => cases hadvance
      | fault reason => cases hadvance
      | step act rest =>
          cases hadvance
          exact ⟨room, hroom, hbounded.of_step shared⟩
      | enter rest =>
          obtain ⟨-, heq⟩ := Option.ite_none_right_eq_some.mp hadvance
          cases heq
          obtain ⟨fewer, rfl, hrest⟩ := hbounded.of_enter
          exact ⟨fewer, (Nat.add_right_comm fewer depth 1).trans hroom, hrest⟩
      | leave rest =>
          obtain ⟨-, heq⟩ := Option.ite_none_right_eq_some.mp hadvance
          cases heq
          obtain ⟨lower, hlower, hrest⟩ := hbounded.of_leave
          obtain rfl : depth = lower + 1 := hlower
          exact ⟨room + 1, (Nat.add_right_comm room 1 lower).trans hroom, hrest⟩

end Activity

namespace SlotsConfig

variable [DecidableEq Core] {machine : Machine Core Guard Status}
  {clients : Clients (Core × Nat) State Fault Request Result} {bound : Nat}
  {config next : SlotsConfig Core State Guard Status Fault Request Result}

/-- No context will enter more sections than the bound allows. -/
def Fits (bound : Nat) (config : SlotsConfig Core State Guard Status Fault Request Result) : Prop :=
  ∀ core, ∀ slot ∈ config.slots core, ∀ request left, slot.task = some (request, left) →
    Activity.Fits bound ⟨request, left, slot.control⟩

theorem Fits.step (hfits : config.Fits bound) (hidle : config.IdleOutside)
    (hbounded : ∀ moves client request, clients.allowed moves client request →
      (clients.perform request).Bounded bound 0)
    (hstep : machine.CoreStep clients config next) : next.Fits bound := by
  -- Only the newest context of one core has something else to do than before.
  have hupdate : ∀ {core : Core} {slots : List (Slot State Fault Request Result Guard Status)},
      (∀ slot ∈ slots, ∀ request left, slot.task = some (request, left) →
        Activity.Fits bound ⟨request, left, slot.control⟩) →
      ∀ other, ∀ slot ∈ Function.update config.slots core slots other, ∀ request left,
        slot.task = some (request, left) → Activity.Fits bound ⟨request, left, slot.control⟩ := by
    intro core slots hslots other
    by_cases hother : other = core
    · subst hother
      rw [Function.update_self]
      exact hslots
    · rw [Function.update_of_ne hother]
      exact hfits other
  have hnewest : ∀ {core : Core} {slot newest : Slot State Fault Request Result Guard Status}
      {below : List (Slot State Fault Request Result Guard Status)},
      config.slots core = slot :: below →
      (∀ request left, newest.task = some (request, left) →
        Activity.Fits bound ⟨request, left, newest.control⟩) →
      ∀ other ∈ newest :: below, ∀ request left, other.task = some (request, left) →
        Activity.Fits bound ⟨request, left, other.control⟩ := by
    intro core slot newest below running htop other hmem
    rcases List.mem_cons.mp hmem with rfl | hbelow
    · exact htop
    · exact hfits core other (running ▸ List.mem_cons_of_mem _ hbelow)
  cases hstep with
  | @call core control below request running isAllowed =>
      apply hupdate
      apply hnewest running
      intro asked left htask
      cases htask
      obtain ⟨depth, before, current⟩ := control
      obtain ⟨hcurrent, hdepth⟩ := hidle core _ (running ▸ List.mem_cons_self) rfl
      obtain rfl : current = none := hcurrent
      obtain rfl : depth = 0 := hdepth
      exact ⟨bound, rfl, hbounded _ _ _ isAllowed⟩
  | @advance core control request left below running shared guard following advances =>
      apply hupdate
      apply hnewest running
      intro asked rest htask
      cases htask
      have hnow := hfits core _ (running ▸ List.mem_cons_self) request left rfl
      exact hnow.advance advances
  | finish core running outside =>
      apply hupdate
      apply hnewest running
      intro asked left htask
      cases htask
  | @interrupt core slot below running enabled =>
      apply hupdate
      intro other hmem asked left htask
      rcases List.mem_cons.mp hmem with rfl | hbelow
      · cases htask
      · exact hfits core other (running ▸ hbelow) asked left htask
  | @handlerReturn core control slot below running =>
      apply hupdate
      intro other hmem
      exact hfits core other (running ▸ List.mem_cons_of_mem _ hmem)

end SlotsConfig

/-! ## Cores that are left alone -/

/-- The machine while no handler starts. -/
def Machine.quiet (machine : Machine Core Guard Status) : Machine Core Guard Status :=
  { machine with interruptible := fun _ _ => false }

/-- The clients while none of them calls. -/
def Clients.silent {Client : Type} (clients : Clients Client State Fault Request Result) :
    Clients Client State Fault Request Result :=
  { clients with allowed := fun _ _ _ => False }

/-- What a context may get to by one step of its core. -/
inductive Slot.Later (machine : Machine Unit Guard Status) :
    Slot State Fault Request Result Guard Status →
    Slot State Fault Request Result Guard Status → Prop
  | advance {control : Context Guard Status} {request : Request}
      {left : Program State Fault Result} {shared after : State} {guard later : Guard}
      {next : Activity State Fault Request Result Guard Status}
      (advances : Activity.advance machine ⟨request, left, control⟩ shared guard =
        some (after, later, next)) :
      Later machine ⟨next.control, some (next.request, next.left)⟩ ⟨control, some (request, left)⟩
  | finish {control : Context Guard Status} {request : Request} {result : Result} :
      Later machine ⟨control, none⟩ ⟨control, some (request, .ret result)⟩

namespace Slot

variable {machine : Machine Unit Guard Status} {request : Request} {left : Program State Fault Result}

theorem acc_idle (control : Context Guard Status) : Acc (Slot.Later machine)
    (⟨control, none⟩ : Slot State Fault Request Result Guard Status) :=
  ⟨_, fun slot hlater => by cases hlater⟩

/-- A procedure comes to its end, and then the program goes on. -/
theorem acc_of_between (hbetween : ∀ depth before,
      Acc (Slot.Later machine) ⟨⟨depth, before, none⟩, some (request, left)⟩)
    (control : Context Guard Status) : Acc (Slot.Later machine) ⟨control, some (request, left)⟩ := by
  obtain ⟨depth, before, current⟩ := control
  cases current with
  | none => exact hbetween depth before
  | some call =>
      obtain ⟨crossing, thread⟩ := call
      induction thread with
      | ret result =>
          refine ⟨_, fun slot hlater => ?_⟩
          cases hlater with
          | advance advances =>
              cases advances
              exact hbetween _ _
          | finish => exact acc_idle _
      | step act rest ih =>
          refine ⟨_, fun slot hlater => ?_⟩
          cases hlater with
          | advance advances =>
              obtain ⟨taken, -, heq⟩ := Option.map_eq_some_iff.mp advances
              cases heq
              exact ih _
          | finish => exact acc_idle _

/-- Nothing that a context does goes on forever. -/
theorem later_wellFounded (machine : Machine Unit Guard Status) :
    WellFounded (Slot.Later machine :
      Slot State Fault Request Result Guard Status → Slot State Fault Request Result Guard Status →
        Prop) := by
  refine ⟨fun slot => ?_⟩
  obtain ⟨control, task⟩ := slot
  cases task with
  | none => exact acc_idle control
  | some task =>
      obtain ⟨request, left⟩ := task
      -- Less of the program is left after each action of it.
      induction left generalizing control with
      | ret result =>
          apply acc_of_between
          refine fun depth before => ⟨_, fun slot hlater => ?_⟩
          cases hlater with
          | advance advances => cases advances
          | finish => exact acc_idle _
      | fault reason =>
          apply acc_of_between
          refine fun depth before => ⟨_, fun slot hlater => ?_⟩
          cases hlater with
          | advance advances => cases advances
      | step act rest ih =>
          apply acc_of_between
          refine fun depth before => ⟨_, fun slot hlater => ?_⟩
          cases hlater with
          | advance advances =>
              cases advances
              exact ih _ _
      | enter rest ih =>
          apply acc_of_between
          refine fun depth before => ⟨_, fun slot hlater => ?_⟩
          cases hlater with
          | advance advances =>
              obtain ⟨-, heq⟩ := Option.ite_none_right_eq_some.mp advances
              cases heq
              exact ih _
      | leave rest ih =>
          apply acc_of_between
          refine fun depth before => ⟨_, fun slot hlater => ?_⟩
          cases hlater with
          | advance advances =>
              obtain ⟨-, heq⟩ := Option.ite_none_right_eq_some.mp advances
              cases heq
              exact ih _

end Slot

namespace Machine

variable [DecidableEq Core] {machine : Machine Core Guard Status}
  {clients : Clients (Core × Nat) State Fault Request Result}
  {config next : SlotsConfig Core State Guard Status Fault Request Result}

/-- A step of cores that are left alone. -/
def GoesOn (machine : Machine Core Guard Status)
    (clients : Clients (Core × Nat) State Fault Request Result)
    (config next : SlotsConfig Core State Guard Status Fault Request Result) : Prop :=
  machine.quiet.CoreStep clients.silent config next

theorem GoesOn.coreStep (hstep : machine.GoesOn clients config next) :
    machine.CoreStep clients config next := by
  cases hstep with
  | call core running isAllowed => exact isAllowed.elim
  | advance core running advances => exact .advance core running advances
  | finish core running outside => exact .finish core running outside
  | interrupt core running enabled => cases enabled
  | handlerReturn core running => exact .handlerReturn core running

/-- Cores that are left alone do not go on forever. -/
theorem goesOn_wellFounded [Finite Core] (machine : Machine Core Guard Status)
    (clients : Clients (Core × Nat) State Fault Request Result) :
    WellFounded fun next config => machine.GoesOn clients config next := by
  have hstacks := Pi.Lex.wellFounded (WellOrderingRel : Core → Core → Prop) fun core =>
    List.Shortlex.wf (Slot.later_wellFounded (machine.quiet.ofCore core) :
      WellFounded fun (next slot : Slot State Fault Request Result Guard Status) => _)
  -- One core gets a smaller stack of contexts, and the others keep theirs.
  apply Subrelation.wf _ (InvImage.wf SlotsConfig.slots hstacks)
  intro next config hstep
  cases hstep with
  | call core running isAllowed => exact isAllowed.elim
  | advance core running advances =>
      refine ⟨core, fun other hother => Function.update_of_ne (ne_of_irrefl hother) _ _, ?_⟩
      dsimp only
      rw [Function.update_self, running]
      exact .of_lex rfl (.rel (.advance advances))
  | finish core running outside =>
      refine ⟨core, fun other hother => Function.update_of_ne (ne_of_irrefl hother) _ _, ?_⟩
      dsimp only
      rw [Function.update_self, running]
      exact .of_lex rfl (.rel .finish)
  | interrupt core running enabled => cases enabled
  | handlerReturn core running =>
      refine ⟨core, fun other hother => Function.update_of_ne (ne_of_irrefl hother) _ _, ?_⟩
      dsimp only
      rw [Function.update_self, running]
      exact .of_length_lt (Nat.lt_succ_self _)

end Machine

/-! ## At rest -/

namespace SlotsConfig

/-- Every core runs one context only, which has nothing to do. -/
def AtRest (config : SlotsConfig Core State Guard Status Fault Request Result) : Prop :=
  ∀ core, ∃ control, config.slots core = [⟨control, none⟩]

end SlotsConfig

namespace Machine

variable [DecidableEq Core] {machine : Machine Core Guard Status}
  {outline : Outline Core Guard Status} {owner : Guard → Option Core}
  {clients : Clients (Core × Nat) State Fault Request Result} {bound : Nat}
  {config next : SlotsConfig Core State Guard Status Fault Request Result}
  {seen : ClientConfig (Core × Nat) State Fault Request Result} {core : Core}

/-- No context is outside of sections and yet the owner, and a procedure is
blocked only while another core is the owner. -/
structure ReleasesCores (machine : Machine Core Guard Status) (outline : Outline Core Guard Status)
    (owner : Guard → Option Core) (bound : Nat) (start : Guard) : Prop where
  nestable : ∀ depth, depth < bound → machine.nestable depth = true
  released : ∀ core base guard, outline.settled core base 0 guard → owner guard ≠ some core
  blocked : ∀ config, machine.Reachable start config → ∀ core context below crossing act rest,
    config.contexts core = context :: below → context.current = some (crossing, .step act rest) →
      act config.shared = none → ∃ other, owner config.shared = some other ∧ other ≠ core

/-- A context that has something to do can do it, or it is waiting. -/
theorem SimulatesCores.waits (hsimulates : SimulatesCores machine outline config seen)
    {start : Guard} (hreleases : ReleasesCores machine outline owner bound start)
    (hcontrol : machine.Reachable start config.control) (hfits : config.Fits bound)
    (hlive : Clients.Live seen) (hstuck : ∀ next, ¬ machine.GoesOn clients config next)
    {slot : Slot State Fault Request Result Guard Status}
    {below : List (Slot State Fault Request Result Guard Status)}
    (running : config.slots core = slot :: below) (hbusy : slot.task ≠ none) :
    ∃ other, owner config.guard = some other ∧ other ≠ core := by
  obtain ⟨⟨depth, before, current⟩, task⟩ := slot
  obtain ⟨⟨request, left⟩, rfl⟩ := Option.ne_none_iff_exists'.mp hbusy
  have hmem := running ▸ List.mem_cons_self
  obtain ⟨room, hroom, hbounded⟩ := hfits core _ hmem request left rfl
  have hadvance : Activity.advance (machine.quiet.ofCore core) ⟨request, left, depth, before, current⟩
      config.shared config.guard = none := by
    by_contra hsome
    obtain ⟨⟨shared, guard, next⟩, hnext⟩ := Option.ne_none_iff_exists'.mp hsome
    exact hstuck _ (.advance core running hnext)
  cases current with
  | some call =>
      obtain ⟨crossing, thread⟩ := call
      cases thread with
      | ret result => cases hadvance
      | step act rest =>
          have hblocked : act config.guard = none := Option.map_eq_none_iff.mp hadvance
          exact hreleases.blocked config.control hcontrol core ⟨depth, before, _⟩ _ crossing act rest
            (congrArg (List.map Slot.control) running) rfl hblocked
  | none =>
      cases left with
      | ret result => exact absurd (.finish core running rfl) (hstuck _)
      | fault reason =>
          -- No program gets to where it has no meaning.
          exact absurd rfl (hsimulates.faultless hlive core _ hmem request reason)
      | step act rest => cases hadvance
      | enter rest =>
          obtain ⟨fewer, rfl, -⟩ := hbounded.of_enter
          have hroom : fewer + 1 + depth = bound := hroom
          have hnestable : machine.nestable depth = true := hreleases.nestable depth (by omega)
          have hrefused : (if machine.nestable depth = true then some _ else none) = none := hadvance
          rw [if_pos hnestable] at hrefused
          cases hrefused
      | leave rest =>
          obtain ⟨lower, hlower, -⟩ := hbounded.of_leave
          obtain rfl : depth = lower + 1 := hlower
          have hrefused : (if 0 < lower + 1 then some _ else none) = none := hadvance
          rw [if_pos (Nat.succ_pos lower)] at hrefused
          cases hrefused

/-- A core with nothing to do is not the owner. -/
theorem SimulatesCores.not_owner (hsimulates : SimulatesCores machine outline config seen)
    {start : Guard} (hreleases : ReleasesCores machine outline owner bound start)
    {slot : Slot State Fault Request Result Guard Status}
    {below : List (Slot State Fault Request Result Guard Status)}
    (running : config.slots core = slot :: below) (hidle : slot.task = none) :
    owner config.guard ≠ some core := by
  obtain ⟨hcurrent, hdepth⟩ :=
    hsimulates.idleOutside core slot (running ▸ List.mem_cons_self) hidle
  obtain ⟨base, context, rest, hcontexts, ⟨-, hsettled⟩, -⟩ := hsimulates.ordered.agrees core
  have hmap : config.control.contexts core = slot.control :: below.map Slot.control :=
    congrArg (List.map Slot.control) running
  rw [hmap] at hcontexts
  cases hcontexts
  rw [hcurrent, hdepth] at hsettled
  exact hreleases.released core base _ hsettled

/-- If no core can go on, all of them are done. -/
theorem SimulatesCores.atRest (hsimulates : SimulatesCores machine outline config seen)
    {start : Guard} (hreleases : ReleasesCores machine outline owner bound start)
    (hcontrol : machine.Reachable start config.control) (hfits : config.Fits bound)
    (hlive : Clients.Live seen) (hstuck : ∀ next, ¬ machine.GoesOn clients config next) :
    config.AtRest := by
  have hslots : ∀ core, ∃ slot below, config.slots core = slot :: below := by
    intro core
    obtain ⟨base, context, below, hcontexts, -⟩ := hsimulates.ordered.agrees core
    obtain ⟨slot, rest, heq, -⟩ := List.map_eq_cons_iff.mp hcontexts
    exact ⟨slot, rest, heq⟩
  intro core
  obtain ⟨⟨control, task⟩, below, running⟩ := hslots core
  cases task with
  | none =>
      cases below with
      | nil => exact ⟨control, running⟩
      | cons slot below => exact absurd (.handlerReturn core running) (hstuck _)
  | some task =>
      -- The core waits for an owner, which would have to wait as well.
      obtain ⟨other, howner, -⟩ := hsimulates.waits hreleases hcontrol hfits hlive hstuck running
        (Option.some_ne_none task)
      obtain ⟨slot, others, hother⟩ := hslots other
      have hbusy : slot.task ≠ none :=
        fun hidle => hsimulates.not_owner hreleases hother hidle howner
      obtain ⟨third, hthird, hne⟩ :=
        hsimulates.waits hreleases hcontrol hfits hlive hstuck hother hbusy
      rw [howner] at hthird
      exact absurd (Option.some.inj hthird).symm hne

omit [DecidableEq Core] in
theorem SimulatesCores.outside_of_atRest (hsimulates : SimulatesCores machine outline config seen)
    (hrest : config.AtRest) : config.OutsideSections := by
  intro core slot hmem
  obtain ⟨control, hslots⟩ := hrest core
  rw [hslots] at hmem
  rcases List.mem_singleton.mp hmem with rfl
  exact (hsimulates.slots core [] _ [] hslots).2.2

omit [DecidableEq Core] in
theorem SimulatesCores.idle_of_atRest (hsimulates : SimulatesCores machine outline config seen)
    (hrest : config.AtRest) (client : Core × Nat) : seen.busy client = none := by
  obtain ⟨core, level⟩ := client
  obtain ⟨control, hslots⟩ := hrest core
  cases level with
  | zero => exact (hsimulates.slots core [] _ [] hslots).1
  | succ level =>
      apply hsimulates.unused core
      rw [hslots]
      exact Nat.succ_le_succ (Nat.zero_le level)

section Runs

variable {shared : State} {guard : Guard} (hexcludes : ExcludesCores machine outline owner)
  (hguarded : ∀ moves client request, clients.allowed moves client request →
    (clients.perform request).Guarded 0)
  (hvisible : ∀ moves client request, clients.allowed (visible moves) client request →
    clients.allowed moves client request)
  (hbounded : ∀ moves client request, clients.allowed moves client request →
    (clients.perform request).Bounded bound 0)
  (hguard : ∀ core, ∃ base, outline.settled core base 0 guard)

include hexcludes hguarded hvisible hbounded hguard

/-- What the cores do is something that the machine does, and no program enters
more sections than it may. -/
theorem CoresReachable.control
    (hreachable : machine.CoresReachable clients (machine.startCores shared guard) config) :
    machine.Reachable guard config.control ∧ config.Fits bound := by
  induction hreachable with
  | refl =>
      refine ⟨.refl, fun core slot hmem request left htask => ?_⟩
      rcases List.mem_singleton.mp hmem with rfl
      cases htask
  | tail hprior hstep ih =>
      obtain ⟨hcontrol, hfits⟩ := ih
      obtain ⟨seen, -, hsimulates⟩ :=
        SimulatesCores.reachable hexcludes hguarded hvisible hguard hprior
      refine ⟨?_, hfits.step hsimulates.idleOutside hbounded hstep⟩
      rcases SlotsConfig.control_step hsimulates.idleOutside hstep with heq | hmachine
      · rwa [heq]
      · exact hcontrol.tail hmachine

/-- Where no core can go on, all calls have returned. -/
theorem CoresReachable.atRest (hreleases : ReleasesCores machine outline owner bound guard)
    (hlive : ∀ seen, clients.Reachable shared seen → Clients.Live seen)
    (hreachable : machine.CoresReachable clients (machine.startCores shared guard) config)
    (hstuck : ∀ next, ¬ machine.GoesOn clients config next) : config.AtRest := by
  obtain ⟨seen, hseen, hsimulates⟩ :=
    SimulatesCores.reachable hexcludes hguarded hvisible hguard hreachable
  obtain ⟨hcontrol, hfits⟩ :=
    hreachable.control hexcludes hguarded hvisible hbounded hguard
  exact hsimulates.atRest hreleases hcontrol hfits (hlive seen hseen) hstuck

end Runs

end Machine

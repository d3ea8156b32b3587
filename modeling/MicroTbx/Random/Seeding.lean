import MicroTbx.Foundation.Interleaving
import MicroTbx.Random.Registers

/-! # Seeding under preemption

A number is drawn in parts: the flag is tested, the registers are initialized,
the flag is set, and two draws are made, each in a section. Between two parts
another context may run. The flag keeps a second context from seeding again
only if it is tested after the first one has set it.
-/

namespace MicroTbx

open Program

/-! ## The parts of a number -/

/-- The parts of `TbxRandomNumberGet` that nothing comes in between of. -/
inductive RandomPart : Type → Type
  | test : RandomPart Bool
  | initLFSRs : RandomPart Unit
  | set : RandomPart Unit
  | draw : RandomPart (BitVec 16)

namespace RandomPart

def code {Value : Type} : RandomPart Value → RandomCode Value
  | test => do
      let state ← read
      return state.seeded
  | initLFSRs => tbxRandomInitLFSRs
  | set => modify fun state => { state with seeded := true }
  | draw => tbxRandomNumber16BitGet

end RandomPart

/-- `TbxRandomNumberGet` made of its parts. -/
def numberGetOf {Part : Type → Type} [Monad Part]
    (part : {Value : Type} → RandomPart Value → Part Value) : Part (BitVec 32) := do
  let seeded ← part .test
  if seeded = false then do
    part .initLFSRs
    part .set
  let high ← part .draw
  let low ← part .draw
  return high.setWidth 32 <<< 16 ||| low.setWidth 32

theorem tbxRandomNumberGet_eq : tbxRandomNumberGet = numberGetOf RandomPart.code := rfl

/-! ## Contexts that draw numbers -/

/-- What the parts did. -/
inductive RandomEvent
  | tested (seeded : Bool)
  | initialized
  | flagSet
  | drew (value : BitVec 16)
  deriving DecidableEq

def RandomPart.event {Value : Type} : RandomPart Value → Value → RandomEvent
  | test, seeded => .tested seeded
  | initLFSRs, _ => .initialized
  | set, _ => .flagSet
  | draw, value => .drew value

/-- The state of the module, and what was done to it, the newest first. No code
reads the latter. -/
structure RandomSystem where
  state : RandomState
  log : List RandomEvent

/-- Execute a part in one step. -/
def inOneStep {Value : Type} (part : RandomPart Value) : Program RandomSystem Unit Value :=
  .step
    (fun system => match part.code.run 0 system.state with
      | .done value _ after => ⟨after, part.event value :: system.log⟩
      | .faulted _ _ | .unbalanced _ => system)
    fun system => match part.code.run 0 system.state with
      | .done value _ _ => .ret value
      | .faulted _ _ | .unbalanced _ => .fault ()

abbrev RandomConfig (Context : Type) := ClientConfig Context RandomSystem Unit Unit (BitVec 32)

/-- Any number of contexts draw numbers whenever they like. -/
def randomClients (Context : Type) : Clients Context RandomSystem Unit Unit (BitVec 32) where
  allowed := fun _ _ _ => True
  perform := fun _ => numberGetOf inOneStep

instance (Context : Type) (moves : List (Context × ClientMove RandomSystem Unit (BitVec 32)))
    (context : Context) (request : Unit) :
    Decidable ((randomClients Context).allowed moves context request) :=
  inferInstanceAs (Decidable True)

/-- Program start, with the handler that the application has set. -/
def randomStart (seedInitHandler : Option SeedInitHandler) : RandomSystem where
  state := { RandomState.initial with tbxRandomSeedInitHandler := seedInitHandler }
  log := []

/-- The output at a position of the sequence that two seeds generate. -/
def outputOf (seeds : BitVec 32 × BitVec 32) (position : Nat) : BitVec 16 :=
  (((Lfsr.shift tbxRandomLfsr32Polymask)^[2 * (position + 1)] seeds.1 ^^^
    (Lfsr.shift tbxRandomLfsr31Polymask)^[position + 1] seeds.2) &&& 0xFFFF).setWidth 16

/-- The values drawn, the oldest first. -/
def drawsOf : List RandomEvent → List (BitVec 16)
  | [] => []
  | .drew value :: earlier => drawsOf earlier ++ [value]
  | _ :: earlier => drawsOf earlier

/-- Nothing is drawn before the registers were initialized. -/
def DrawsAfterInit : List RandomEvent → Prop
  | [] => True
  | .drew _ :: earlier => .initialized ∈ earlier ∧ DrawsAfterInit earlier
  | _ :: earlier => DrawsAfterInit earlier

/-- The registers are initialized once and before any draw, and no position of
the sequence is handed out twice or left out. -/
structure SeededOnce (seeds : BitVec 32 × BitVec 32) (log : List RandomEvent) : Prop where
  once : log.count .initialized ≤ 1
  before : DrawsAfterInit log
  consecutive : drawsOf log = (List.range (drawsOf log).length).map (outputOf seeds)

/-- The step does not find the flag unset after another context has found it
unset. -/
def TestsAlone {Context : Type} (before after : RandomConfig Context) : Prop :=
  after.shared.log = .tested false :: before.shared.log → .tested false ∉ before.shared.log

instance {Context : Type} (before after : RandomConfig Context) :
    Decidable (TestsAlone before after) :=
  inferInstanceAs (Decidable (_ → _))

/-- The configurations that contexts can get into, when all steps are such. -/
def ReachedAlone {Context : Type} [DecidableEq Context] (seedInitHandler : Option SeedInitHandler) :
    RandomConfig Context → Prop :=
  Relation.ReflTransGen
    (fun before after => (randomClients Context).Step before after ∧ TestsAlone before after)
    ⟨randomStart seedInitHandler, fun _ => none, []⟩

/-! ## What the parts do -/

/-- The 16 bits that the registers stand for. -/
def RandomState.value (state : RandomState) : BitVec 16 :=
  ((state.tbxRandomNumberLFSR32 ^^^ state.tbxRandomNumberLFSR31) &&& 0xFFFF).setWidth 16

def RandomState.setSeeded (state : RandomState) : RandomState := { state with seeded := true }

/-- The result of a part and the state after it. -/
def RandomPart.spec {Value : Type} (state : RandomState) : RandomPart Value → Value × RandomState
  | test => (state.seeded, state)
  | initLFSRs => ((), state.seed)
  | set => ((), state.setSeeded)
  | draw => (state.draw.value, state.draw)

theorem RandomPart.evaluates {Value : Type} (part : RandomPart Value) (state : RandomState) :
    part.code.Evaluates state (part.spec state).1 (part.spec state).2 := by
  cases part with
  | test => exact fun _ => ⟨rfl, rfl, rfl⟩
  | initLFSRs => exact tbxRandomInitLFSRs_spec
  | set => exact fun _ => ⟨rfl, rfl, rfl⟩
  | draw =>
      intro depth
      simp only [code, tbxRandomNumber16BitGet, wp_bind, wp_enterCritical,
        (tbxRandomShiftLFSR_spec _ _).wp_iff, wp_leaveCritical, wp_pure]
      exact ⟨trivial, rfl, rfl⟩

theorem inOneStep_advance {Value Next : Type} (part : RandomPart Value)
    (rest : Value → Program RandomSystem Unit Next) (system : RandomSystem) :
    (inOneStep part >>= rest).advance system = some (rest (part.spec system.state).1,
      ⟨(part.spec system.state).2, part.event (part.spec system.state).1 :: system.log⟩) := by
  obtain ⟨_, _, hrun, rfl, rfl⟩ := (part.evaluates system.state).run 0
  change some (_, _) = _
  simp only [hrun]
  rfl

theorem iterate_draw (state : RandomState) (count : Nat) :
    (RandomState.draw^[count] state).tbxRandomNumberLFSR32 =
        (Lfsr.shift tbxRandomLfsr32Polymask)^[2 * count] state.tbxRandomNumberLFSR32 ∧
      (RandomState.draw^[count] state).tbxRandomNumberLFSR31 =
        (Lfsr.shift tbxRandomLfsr31Polymask)^[count] state.tbxRandomNumberLFSR31 ∧
      (RandomState.draw^[count] state).seeded = state.seeded := by
  induction count with
  | zero => exact ⟨rfl, rfl, rfl⟩
  | succ count ih =>
      obtain ⟨hlfsr32, hlfsr31, hseeded⟩ := ih
      have htwice : 2 * (count + 1) = 2 * count + 1 + 1 := by omega
      simp only [Function.iterate_succ_apply', htwice, ← hlfsr32, ← hlfsr31, ← hseeded]
      exact ⟨rfl, rfl, rfl⟩

/-- The registers after so many draws from the seeds, and the next output. -/
theorem value_draw_iterate (state : RandomState) (count : Nat) :
    (RandomState.draw (RandomState.draw^[count] state.seed.setSeeded)).value =
      outputOf (seedsOf state.tbxRandomSeedInitHandler state.handlerCalls) count := by
  obtain ⟨hlfsr32, hlfsr31, -⟩ := iterate_draw state.seed.setSeeded (count + 1)
  rw [← Function.iterate_succ_apply' RandomState.draw, RandomState.value, hlfsr32, hlfsr31]
  rfl

/-! ## Where contexts are -/

section Positions

/-- What is left behind the seeding. -/
def drawNumber : Program RandomSystem Unit (BitVec 32) := do
  let high ← inOneStep .draw
  let low ← inOneStep .draw
  return high.setWidth 32 <<< 16 ||| low.setWidth 32

def drawLow (high : BitVec 16) : Program RandomSystem Unit (BitVec 32) := do
  let low ← inOneStep .draw
  return high.setWidth 32 <<< 16 ||| low.setWidth 32

def setAndDraw : Program RandomSystem Unit (BitVec 32) := do
  inOneStep .set
  drawNumber

def initAndDraw : Program RandomSystem Unit (BitVec 32) := do
  inOneStep .initLFSRs
  setAndDraw

/-- Nothing of a number was done yet. -/
def Untested (program : Program RandomSystem Unit (BitVec 32)) : Prop :=
  program = numberGetOf inOneStep

/-- Nothing is left to do to the flag but to test it. -/
def Drawing (program : Program RandomSystem Unit (BitVec 32)) : Prop :=
  Untested program ∨ program = drawNumber ∨ (∃ high, program = drawLow high) ∨
    ∃ result, program = .ret result

end Positions

variable {Context : Type}

/-- All contexts but one have not tested the flag yet. -/
structure Seeder (config : RandomConfig Context) (context : Context)
    (program : Program RandomSystem Unit (BitVec 32)) : Prop where
  own : config.busy context = some ((), program)
  others : ∀ other, other ≠ context → ∀ request left, config.busy other = some (request, left) →
    Untested left

/-- How far the seeding has come. -/
inductive SeedingPhase (start : RandomState) (config : RandomConfig Context) : Prop
  | untested (shared : config.shared = ⟨start, []⟩)
      (busy : ∀ context request program, config.busy context = some (request, program) →
        Untested program)
  | tested (context : Context) (shared : config.shared = ⟨start, [.tested false]⟩)
      (seeder : Seeder config context initAndDraw)
  | initialized (context : Context)
      (shared : config.shared = ⟨start.seed, [.initialized, .tested false]⟩)
      (seeder : Seeder config context setAndDraw)
  | flagSet (shared : config.shared.state =
        RandomState.draw^[(drawsOf config.shared.log).length] start.seed.setSeeded)
      (initialized : .initialized ∈ config.shared.log)
      (seeded : SeededOnce (seedsOf start.tbxRandomSeedInitHandler start.handlerCalls)
        config.shared.log)
      (busy : ∀ context request program, config.busy context = some (request, program) →
        Drawing program)

variable {start : RandomState} {config after : RandomConfig Context}

theorem SeedingPhase.seededOnce (hphase : SeedingPhase start config) :
    SeededOnce (seedsOf start.tbxRandomSeedInitHandler start.handlerCalls) config.shared.log := by
  cases hphase with
  | untested shared busy =>
      rw [shared]
      exact ⟨by simp, trivial, rfl⟩
  | tested context shared seeder =>
      rw [shared]
      exact ⟨by simp, trivial, rfl⟩
  | initialized context shared seeder =>
      rw [shared]
      exact ⟨by simp, trivial, rfl⟩
  | flagSet shared initialized seeded busy => exact seeded

/-- One more draw hands out the next position. -/
theorem SeededOnce.draw {seeds : BitVec 32 × BitVec 32} {log : List RandomEvent}
    (hseeded : SeededOnce seeds log) (hinitialized : .initialized ∈ log) :
    SeededOnce seeds (.drew (outputOf seeds (drawsOf log).length) :: log) where
  once := by simpa using hseeded.once
  before := ⟨hinitialized, hseeded.before⟩
  consecutive := by
    simp only [drawsOf, List.length_append, List.length_singleton, List.range_succ, List.map_append,
      List.map_singleton, ← hseeded.consecutive]

theorem SeededOnce.tested {seeds : BitVec 32 × BitVec 32} {log : List RandomEvent} {found : Bool}
    (hseeded : SeededOnce seeds log) : SeededOnce seeds (.tested found :: log) where
  once := by simpa using hseeded.once
  before := hseeded.before
  consecutive := hseeded.consecutive

/-! ## One step -/

/-- The parts in the order of the code. -/
theorem advance_test (system : RandomSystem) : (numberGetOf inOneStep).advance system =
    some (if system.state.seeded = false then initAndDraw else drawNumber,
      ⟨system.state, .tested system.state.seeded :: system.log⟩) := by
  have hadvance := inOneStep_advance .test (fun seeded => (do
    if seeded = false then do
      inOneStep .initLFSRs
      inOneStep .set
    let high ← inOneStep .draw
    let low ← inOneStep .draw
    return high.setWidth 32 <<< 16 ||| low.setWidth 32 : Program RandomSystem Unit (BitVec 32))) system
  refine Eq.trans hadvance ?_
  cases hseeded : system.state.seeded <;> simp only [RandomPart.spec, hseeded] <;> rfl

theorem advance_init (system : RandomSystem) : initAndDraw.advance system =
    some (setAndDraw, ⟨system.state.seed, .initialized :: system.log⟩) :=
  inOneStep_advance .initLFSRs (fun _ => setAndDraw) system

theorem advance_set (system : RandomSystem) : setAndDraw.advance system =
    some (drawNumber, ⟨system.state.setSeeded, .flagSet :: system.log⟩) :=
  inOneStep_advance .set (fun _ => drawNumber) system

theorem advance_draw (system : RandomSystem) : drawNumber.advance system =
    some (drawLow system.state.draw.value,
      ⟨system.state.draw, .drew system.state.draw.value :: system.log⟩) :=
  inOneStep_advance .draw drawLow system

theorem advance_drawLow (high : BitVec 16) (system : RandomSystem) :
    ∃ result, (drawLow high).advance system =
      some (.ret result, ⟨system.state.draw, .drew system.state.draw.value :: system.log⟩) :=
  ⟨_, inOneStep_advance .draw
    (fun low => pure (high.setWidth 32 <<< 16 ||| low.setWidth 32)) system⟩

variable [DecidableEq Context]

/-- The context that moved is where its step has led it, and the others are
where they were. -/
theorem busy_update {busy : Context → Option (Unit × Program RandomSystem Unit (BitVec 32))}
    {condition : Program RandomSystem Unit (BitVec 32) → Prop}
    {rest : Program RandomSystem Unit (BitVec 32)} {context : Context} (hrest : condition rest)
    (hothers : ∀ other, other ≠ context → ∀ request program,
      busy other = some (request, program) → condition program) :
    ∀ other request program,
      Function.update busy context (some ((), rest)) other = some (request, program) →
        condition program := by
  intro other request program hbusy
  by_cases heq : other = context
  · subst heq
    rw [Function.update_self] at hbusy
    cases hbusy
    exact hrest
  · rw [Function.update_of_ne heq] at hbusy
    exact hothers other heq request program hbusy

theorem Seeder.of_others {context : Context} {rest : Program RandomSystem Unit (BitVec 32)}
    {shared moves} (hothers : ∀ other, other ≠ context → ∀ request left,
      config.busy other = some (request, left) → Untested left) :
    Seeder ⟨shared, Function.update config.busy context (some ((), rest)), moves⟩ context rest where
  own := Function.update_self ..
  others := by
    intro other hne request left hbusy
    dsimp only at hbusy
    rw [Function.update_of_ne hne] at hbusy
    exact hothers other hne request left hbusy

/-- Before the flag is set no other context takes a step: it would find the
flag unset too. -/
theorem Seeder.only {context other : Context} {program left rest shared}
    (hseeder : Seeder config context program) (hunseeded : config.shared.state.seeded = false)
    (hfound : .tested false ∈ config.shared.log)
    (hrunning : config.busy other = some ((), left))
    (hadvances : left.advance config.shared = some (rest, shared))
    (halone : shared.log = .tested false :: config.shared.log → .tested false ∉ config.shared.log) :
    other = context := by
  by_contra hne
  obtain rfl : left = numberGetOf inOneStep := hseeder.others other hne () left hrunning
  rw [advance_test, hunseeded] at hadvances
  obtain ⟨-, rfl⟩ := Prod.mk.inj (Option.some.inj hadvances)
  exact halone rfl hfound

theorem SeedingPhase.step {program rest : Program RandomSystem Unit (BitVec 32)}
    {context : Context} {shared : RandomSystem} (hphase : SeedingPhase start config)
    (hrunning : config.busy context = some ((), program))
    (hadvances : program.advance config.shared = some (rest, shared))
    (halone : shared.log = .tested false :: config.shared.log → .tested false ∉ config.shared.log)
    (hunseeded : start.seeded = false) {moves} :
    SeedingPhase start ⟨shared, Function.update config.busy context (some ((), rest)), moves⟩ := by
  cases hphase with
  | untested hshared hbusy =>
      obtain rfl : program = numberGetOf inOneStep := hbusy context () program hrunning
      rw [hshared, advance_test, hunseeded] at hadvances
      obtain ⟨rfl, rfl⟩ := Prod.mk.inj (Option.some.inj hadvances)
      exact .tested context rfl (.of_others fun other _ => hbusy other)
  | tested seeder hshared hseeder =>
      obtain rfl := hseeder.only (by rw [hshared]; exact hunseeded) (by simp [hshared]) hrunning
        hadvances halone
      obtain rfl : program = initAndDraw := by simpa using hrunning.symm.trans hseeder.own
      rw [hshared, advance_init] at hadvances
      obtain ⟨rfl, rfl⟩ := Prod.mk.inj (Option.some.inj hadvances)
      exact .initialized context rfl (.of_others hseeder.others)
  | initialized seeder hshared hseeder =>
      obtain rfl := hseeder.only (by rw [hshared]; exact hunseeded) (by simp [hshared]) hrunning
        hadvances halone
      obtain rfl : program = setAndDraw := by simpa using hrunning.symm.trans hseeder.own
      rw [hshared, advance_set] at hadvances
      obtain ⟨rfl, rfl⟩ := Prod.mk.inj (Option.some.inj hadvances)
      exact .flagSet rfl (by simp) ⟨by simp, trivial, rfl⟩ (busy_update (.inr (.inl rfl))
        fun other hne request left hother => .inl (hseeder.others other hne request left hother))
  | flagSet hshared hinitialized hseeded hbusy =>
      have hothers := fun other (_ : other ≠ context) => hbusy other
      have hset : config.shared.state.seeded = true := by
        rw [hshared, (iterate_draw _ _).2.2]
        rfl
      have hnext : config.shared.state.draw.value =
          outputOf (seedsOf start.tbxRandomSeedInitHandler start.handlerCalls)
            (drawsOf config.shared.log).length := by
        rw [hshared]
        exact value_draw_iterate start _
      -- A draw goes on with the sequence, whichever half of a number it is.
      have hdrawn : ∀ {rest}, Drawing rest → SeedingPhase start
          ⟨⟨config.shared.state.draw, .drew config.shared.state.draw.value :: config.shared.log⟩,
            Function.update config.busy context (some ((), rest)), moves⟩ := by
        intro rest hrest
        refine .flagSet ?_ (List.mem_cons_of_mem _ hinitialized) ?_ (busy_update hrest hothers)
        · simp only [drawsOf, List.length_append, List.length_singleton,
            Function.iterate_succ_apply', ← hshared]
        · rw [hnext]
          exact hseeded.draw hinitialized
      rcases hbusy context () program hrunning with rfl | rfl | ⟨high, rfl⟩ | ⟨result, rfl⟩
      · rw [advance_test, hset] at hadvances
        obtain ⟨rfl, rfl⟩ := Prod.mk.inj (Option.some.inj hadvances)
        exact .flagSet hshared (List.mem_cons_of_mem _ hinitialized) hseeded.tested
          (busy_update (.inr (.inl rfl)) hothers)
      · rw [advance_draw] at hadvances
        obtain ⟨rfl, rfl⟩ := Prod.mk.inj (Option.some.inj hadvances)
        exact hdrawn (.inr (.inr (.inl ⟨_, rfl⟩)))
      · obtain ⟨result, hadvance⟩ := advance_drawLow high config.shared
        rw [hadvance] at hadvances
        obtain ⟨rfl, rfl⟩ := Prod.mk.inj (Option.some.inj hadvances)
        exact hdrawn (.inr (.inr (.inr ⟨result, rfl⟩)))
      · cases hadvances

/-- A context that has not tested the flag yet joins. -/
theorem Seeder.call {context caller : Context} {program : Program RandomSystem Unit (BitVec 32)}
    {shared moves} (hseeder : Seeder config context program) (hidle : config.busy caller = none) :
    Seeder ⟨shared, Function.update config.busy caller (some ((), numberGetOf inOneStep)), moves⟩
      context program := by
  have hne : context ≠ caller := by
    rintro rfl
    cases hidle.symm.trans hseeder.own
  refine ⟨(Function.update_of_ne hne ..).trans hseeder.own, fun other hother request left hbusy => ?_⟩
  dsimp only at hbusy
  by_cases heq : other = caller
  · subst heq
    rw [Function.update_self] at hbusy
    cases hbusy
    rfl
  · rw [Function.update_of_ne heq] at hbusy
    exact hseeder.others other hother request left hbusy

theorem SeedingPhase.call {caller : Context} {moves} (hphase : SeedingPhase start config)
    (hidle : config.busy caller = none) :
    SeedingPhase start ⟨config.shared,
      Function.update config.busy caller (some ((), numberGetOf inOneStep)), moves⟩ := by
  cases hphase with
  | untested hshared hbusy =>
      exact .untested hshared (busy_update rfl fun other _ => hbusy other)
  | tested context hshared hseeder => exact .tested context hshared (hseeder.call hidle)
  | initialized context hshared hseeder => exact .initialized context hshared (hseeder.call hidle)
  | flagSet hshared hinitialized hseeded hbusy =>
      exact .flagSet hshared hinitialized hseeded
        (busy_update (.inl rfl) fun other _ => hbusy other)

/-- Only after the flag is set a context is done. -/
theorem SeedingPhase.finish {context : Context} {result : BitVec 32} {moves}
    (hphase : SeedingPhase start config) (hfinished : config.busy context = some ((), .ret result)) :
    SeedingPhase start ⟨config.shared, Function.update config.busy context none, moves⟩ := by
  have hunfinished : ∀ {owner program}, Seeder config owner program →
      program ≠ .ret result → False := by
    intro owner program hseeder hne
    by_cases heq : context = owner
    · subst heq
      exact hne (by simpa using hseeder.own.symm.trans hfinished)
    · cases hseeder.others context heq () _ hfinished
  cases hphase with
  | untested hshared hbusy => cases hbusy context () _ hfinished
  | tested owner hshared hseeder => exact (hunfinished hseeder nofun).elim
  | initialized owner hshared hseeder => exact (hunfinished hseeder nofun).elim
  | flagSet hshared hinitialized hseeded hbusy =>
      refine .flagSet hshared hinitialized hseeded fun other request program hother => ?_
      dsimp only at hother
      by_cases heq : other = context
      · subst heq
        rw [Function.update_self] at hother
        cases hother
      · rw [Function.update_of_ne heq] at hother
        exact hbusy other request program hother

/-! ## Every run -/

theorem SeedingPhase.reached {seedInitHandler : Option SeedInitHandler}
    (hreached : ReachedAlone seedInitHandler config) :
    SeedingPhase (randomStart seedInitHandler).state config := by
  induction hreached with
  | refl => exact .untested rfl (by simp)
  | tail prior hlast ih =>
      obtain ⟨hstep, halone⟩ := hlast
      cases hstep with
      | call idle isAllowed => exact ih.call idle
      | step running advances => exact ih.step running advances halone rfl
      | finish finished => exact ih.finish finished

/-- When no context finds the flag unset after another one has, the registers
are initialized once and the draws hand out the sequence in order. -/
theorem seeded_once_of_tested_alone {seedInitHandler : Option SeedInitHandler}
    (hreached : ReachedAlone seedInitHandler config) :
    SeededOnce (seedsOf seedInitHandler 0) config.shared.log :=
  (SeedingPhase.reached hreached).seededOnce

/-- The second context tests the flag when the first has drawn once. -/
def seededSchedule : List (Bool × Clients.Choice Unit) :=
  [(true, .call ()), (false, .call ()), (true, .step), (true, .step), (true, .step), (true, .step),
    (false, .step), (false, .step), (true, .step), (true, .finish), (false, .step),
    (false, .finish)]

theorem seeded_once_in_turn : ∃ config : RandomConfig Bool, ReachedAlone none config ∧
    (drawsOf config.shared.log).length = 4 ∧
      SeededOnce (seedsOf none 0) config.shared.log := by
  have hlength : ((randomClients Bool).scheduleMeeting TestsAlone
      ⟨randomStart none, fun _ => none, []⟩ seededSchedule).map
        (fun config => (drawsOf config.shared.log).length) = some 4 := by
    decide +kernel
  obtain ⟨config, hschedule, hfour⟩ := Option.map_eq_some_iff.mp hlength
  have hreached := Clients.steps_of_scheduleMeeting hschedule
  exact ⟨config, hreached, hfour, seeded_once_of_tested_alone hreached⟩

/-- The second context tests the flag before the first has set it, and seeds
again when the first has drawn its number. -/
def reseededSchedule : List (Bool × Clients.Choice Unit) :=
  [(true, .call ()), (false, .call ()), (true, .step), (false, .step), (true, .step), (true, .step),
    (true, .step), (true, .step), (true, .finish), (false, .step), (false, .step), (false, .step),
    (false, .step), (false, .finish)]

/-- Both contexts obtain the same number. -/
theorem seeded_once_fails : ∃ config : RandomConfig Bool,
    (randomClients Bool).Reachable (randomStart none) config ∧
      config.shared.log.count .initialized = 2 ∧
      (drawsOf config.shared.log).take 2 = (drawsOf config.shared.log).drop 2 ∧
      ¬ SeededOnce (seedsOf none 0) config.shared.log := by
  have hreseeded : ((randomClients Bool).schedule ⟨randomStart none, fun _ => none, []⟩
      reseededSchedule).map (fun config => decide (config.shared.log.count .initialized = 2 ∧
        (drawsOf config.shared.log).take 2 = (drawsOf config.shared.log).drop 2)) = some true := by
    decide +kernel
  obtain ⟨config, hschedule, hboth⟩ := Option.map_eq_some_iff.mp hreseeded
  obtain ⟨htwice, hrepeated⟩ := of_decide_eq_true hboth
  refine ⟨config, Clients.steps_of_schedule hschedule, htwice, hrepeated, fun hseeded => ?_⟩
  have honce := hseeded.once
  omega

end MicroTbx

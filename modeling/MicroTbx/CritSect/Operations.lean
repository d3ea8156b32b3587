import MicroTbx.Foundation.Preemption
import Mathlib.Algebra.Group.Nat.Defs
import Mathlib.Tactic.Simps.Basic

/-! # The critical section module

Entering and leaving a critical section on top of a port. The nesting counter
and the saved status are shared by all contexts; each access to one of them is
a step of its own. The ports differ in the hardware they act on, which is a
parameter here.
-/

namespace MicroTbx

/-- What the critical section code does that its specifications observe. -/
inductive SectionEvent (Core : Type)
  /-- A `TBX_ASSERT` whose condition does not hold. -/
  | assertion (core : Core)
  /-- The port disabled the interrupts of the core. -/
  | disabled (core : Core)
  /-- The port restored the interrupt status of the core. -/
  | restored (core : Core)
  /-- The nesting counter was incremented. -/
  | nested (core : Core)
  /-- The nesting counter was decremented. -/
  | unnested (core : Core)
  /-- The core asks for a spin lock that it already holds. -/
  | relocked (core : Core)
  /-- The thread finds that another one has set the flag. -/
  | contended (core : Core)
  deriving DecidableEq

def SectionEvent.core {Core : Type} : SectionEvent Core → Core
  | .assertion core | .disabled core | .restored core | .nested core | .unnested core
  | .relocked core | .contended core => core

/-- The static variables of the module, the hardware that the port acts on, and
the log with the newest event first. No code reads the log. The counter is a
32-bit variable. -/
structure CritSect (Core Hardware SR : Type) where
  hardware : Hardware
  tbxCritSectNestingCounter : Nat
  tbxCritSectCpuSR : SR
  log : List (SectionEvent Core)
  counter_lt : tbxCritSectNestingCounter < 2 ^ 32

variable {Core Hardware SR : Type}

namespace CritSect

/-- No section is entered. -/
def initial (hardware : Hardware) (cpuSR : SR) : CritSect Core Hardware SR where
  hardware := hardware
  tbxCritSectNestingCounter := 0
  tbxCritSectCpuSR := cpuSR
  log := []
  counter_lt := Nat.two_pow_pos 32

@[simps]
def setHardware (state : CritSect Core Hardware SR) (hardware : Hardware) :
    CritSect Core Hardware SR :=
  { state with hardware := hardware }

@[simps]
def setCpuSR (state : CritSect Core Hardware SR) (cpuSR : SR) : CritSect Core Hardware SR :=
  { state with tbxCritSectCpuSR := cpuSR }

@[simps]
def setNestingCounter (state : CritSect Core Hardware SR) (value : Nat) :
    CritSect Core Hardware SR :=
  { state with
    tbxCritSectNestingCounter := value % 2 ^ 32
    counter_lt := Nat.mod_lt value (Nat.two_pow_pos 32) }

@[simps]
def emit (state : CritSect Core Hardware SR) (event : SectionEvent Core) :
    CritSect Core Hardware SR :=
  { state with log := event :: state.log }

end CritSect

/-- The two functions that a port provides. -/
structure Port (Core Hardware SR : Type) where
  tbxPortInterruptsDisable : Core → Thread (CritSect Core Hardware SR) SR
  tbxPortInterruptsRestore : Core → SR → Thread (CritSect Core Hardware SR) Unit

open Thread

variable (port : Port Core Hardware SR)

def tbxCriticalSectionEnter (core : Core) : Thread (CritSect Core Hardware SR) Unit := do
  let cpuSR ← port.tbxPortInterruptsDisable core
  let count ← get (·.tbxCritSectNestingCounter)
  (if count = 0 then modify (·.setCpuSR cpuSR) else pure ())
  let count ← get (·.tbxCritSectNestingCounter)
  modify fun state => (state.setNestingCounter (count + 1)).emit (.nested core)

/-- What `TbxCriticalSectionEnter` does behind `TbxPortInterruptsDisable`. -/
def enterDisabled (core : Core) (cpuSR : SR) : Thread (CritSect Core Hardware SR) Unit := do
  let count ← get (·.tbxCritSectNestingCounter)
  (if count = 0 then modify (·.setCpuSR cpuSR) else pure ())
  let count ← get (·.tbxCritSectNestingCounter)
  modify fun state => (state.setNestingCounter (count + 1)).emit (.nested core)

theorem tbxCriticalSectionEnter_eq (core : Core) : tbxCriticalSectionEnter port core =
    port.tbxPortInterruptsDisable core >>= enterDisabled core := rfl

def tbxCriticalSectionExit (core : Core) : Thread (CritSect Core Hardware SR) Unit := do
  let count ← get (·.tbxCritSectNestingCounter)
  (if 0 < count then pure () else modify (·.emit (.assertion core)))
  let count ← get (·.tbxCritSectNestingCounter)
  if 0 < count then do
    let count ← get (·.tbxCritSectNestingCounter)
    modify fun state => (state.setNestingCounter (count - 1)).emit (.unnested core)
    let count ← get (·.tbxCritSectNestingCounter)
    if count = 0 then do
      let cpuSR ← get (·.tbxCritSectCpuSR)
      port.tbxPortInterruptsRestore core cpuSR
    else pure ()
  else pure ()

/-- The nesting depths from which the counter does not overflow. -/
def nestsBelowOverflow (depth : Nat) : Bool := decide (depth + 1 < 2 ^ 32)

/-! ## Interrupt hardware -/

/-- The interrupt hardware of one CPU: its status register, how interrupts are
disabled, and what the CPU does to the register around a handler. -/
structure Cpu (SR : Type) where
  enabled : SR → Bool
  disable : SR → SR
  handlerEntry : SR → SR
  handlerReturn : SR → SR
  enabled_disable : ∀ status, enabled (disable status) = false
  handlerReturn_handlerEntry : ∀ status, enabled status = true →
    handlerReturn (handlerEntry status) = status

/-- `PRIMASK`, which a handler inherits. -/
def cortexM : Cpu (BitVec 32) where
  enabled status := !status.getLsbD 0
  disable status := status ||| 1
  handlerEntry := id
  handlerReturn := id
  enabled_disable status := by simp
  handlerReturn_handlerEntry _ _ := rfl

/-- `SREG`, whose I-bit the CPU clears for a handler and sets when it returns. -/
def avr : Cpu (BitVec 8) where
  enabled status := status.getLsbD 7
  disable status := status &&& ~~~0x80
  handlerEntry status := status &&& ~~~0x80
  handlerReturn status := status ||| 0x80
  enabled_disable := by decide
  handlerReturn_handlerEntry := by decide

/-! ## What the log says about a core -/

variable [DecidableEq Core]

/-- The interrupts of the core were disabled and not restored since. -/
def sectionOpen (core : Core) : List (SectionEvent Core) → Bool
  | [] => false
  | .disabled other :: older => if other = core then true else sectionOpen core older
  | .restored other :: older => if other = core then false else sectionOpen core older
  | _ :: older => sectionOpen core older

/-- How much of the nesting counter is on behalf of the core. -/
def nestingOf (core : Core) : List (SectionEvent Core) → Nat
  | [] => 0
  | .nested other :: older =>
      if other = core then nestingOf core older + 1 else nestingOf core older
  | .unnested other :: older =>
      if other = core then nestingOf core older - 1 else nestingOf core older
  | _ :: older => nestingOf core older

variable {core : Core} {event : SectionEvent Core} {log : List (SectionEvent Core)}

theorem sectionOpen_of_ne (hne : event.core ≠ core) :
    sectionOpen core (event :: log) = sectionOpen core log := by
  cases event with
  | disabled other => exact if_neg hne
  | restored other => exact if_neg hne
  | assertion | nested | unnested | relocked | contended => rfl

theorem nestingOf_of_ne (hne : event.core ≠ core) :
    nestingOf core (event :: log) = nestingOf core log := by
  cases event with
  | nested other => exact if_neg hne
  | unnested other => exact if_neg hne
  | assertion | disabled | restored | relocked | contended => rfl

end MicroTbx

import MicroTbx.Foundation.Program
import MicroTbx.Foundation.Run

/-! # The random number module

A 32-bit and a 31-bit shift register, seeded by the first number that is drawn
and stepped inside a critical section. The module has static variables of its
own and shares none with the rest of the library.
-/

namespace MicroTbx

open Program

/-- The application's seed initialization handler. The argument counts its
calls, so that it may answer differently every time. -/
abbrev SeedInitHandler := Nat → BitVec 32

/-- Functions of the module that contain run-time assertions. -/
inductive RandomSite
  | tbxRandomSetSeedInitHandler
  | tbxRandomShiftLFSR
  deriving DecidableEq

/-- The static variables of the module, the number of handler calls made, and
the assertions that did not hold. -/
structure RandomState where
  tbxRandomSeedInitHandler : Option SeedInitHandler
  tbxRandomNumberLFSR32 : BitVec 32
  tbxRandomNumberLFSR31 : BitVec 32
  seeded : Bool
  handlerCalls : Nat
  asserted : List RandomSite

/-- Program start: statics are zero. -/
def RandomState.initial : RandomState where
  tbxRandomSeedInitHandler := none
  tbxRandomNumberLFSR32 := 0
  tbxRandomNumberLFSR31 := 0
  seeded := false
  handlerCalls := 0
  asserted := []

/-- What an `lfsr` pointer can refer to. -/
inductive LfsrPointer
  | lfsr32
  | lfsr31

namespace LfsrPointer

def get : LfsrPointer → RandomState → BitVec 32
  | .lfsr32, state => state.tbxRandomNumberLFSR32
  | .lfsr31, state => state.tbxRandomNumberLFSR31

def set : LfsrPointer → BitVec 32 → RandomState → RandomState
  | .lfsr32, value, state => { state with tbxRandomNumberLFSR32 := value }
  | .lfsr31, value, state => { state with tbxRandomNumberLFSR31 := value }

end LfsrPointer

/-- Code of the module. Nothing in it can fault. -/
abbrev RandomCode := Program RandomState Empty

/-- `TBX_RANDOM_LFSR32_POLYMASK`. -/
def tbxRandomLfsr32Polymask : BitVec 32 := 0xB4BCD35C

/-- `TBX_RANDOM_LFSR31_POLYMASK`. -/
def tbxRandomLfsr31Polymask : BitVec 32 := 0x7A5BC2E3

def randomAssert (site : RandomSite) (condition : Bool) : RandomCode Unit :=
  if condition then pure ()
  else modify fun state => { state with asserted := site :: state.asserted }

def callSeedInitHandler (handler : SeedInitHandler) : RandomCode (BitVec 32) := do
  let state ← read
  modify fun state => { state with handlerCalls := state.handlerCalls + 1 }
  return handler state.handlerCalls

def tbxRandomInitLFSRs : RandomCode Unit := do
  let state ← read
  let (seedLFSR32, seedLFSR31) ← (match state.tbxRandomSeedInitHandler with
    | none => pure (0xABCDE, 0x23456789)
    | some handler => do
        let seedLFSR32 ← callSeedInitHandler handler
        let seedLFSR31 ← callSeedInitHandler handler
        return (seedLFSR32, seedLFSR31))
  let seedLFSR32 := if seedLFSR32 = 0 then 0xABCDE else seedLFSR32
  let seedLFSR31 := if seedLFSR31 = 0 then 0x23456789 else seedLFSR31
  modify fun state => { state with
    tbxRandomNumberLFSR32 := seedLFSR32
    tbxRandomNumberLFSR31 := seedLFSR31 }

def tbxRandomShiftLFSR (lfsr : Option LfsrPointer) (polymask : BitVec 32) :
    RandomCode (BitVec 32) := do
  randomAssert .tbxRandomShiftLFSR lfsr.isSome
  match lfsr with
  | none => return 0
  | some lfsr => do
      let feedback := lfsr.get (← read) &&& 1
      modify fun state => lfsr.set (lfsr.get state >>> 1) state
      if feedback = 1 then modify fun state => lfsr.set (lfsr.get state ^^^ polymask) state
      return lfsr.get (← read)

def tbxRandomNumber16BitGet : RandomCode (BitVec 16) := do
  enterCritical
  let _ ← tbxRandomShiftLFSR (some .lfsr32) tbxRandomLfsr32Polymask
  let lfsr32SecondShift ← tbxRandomShiftLFSR (some .lfsr32) tbxRandomLfsr32Polymask
  let lfsr31FirstShift ← tbxRandomShiftLFSR (some .lfsr31) tbxRandomLfsr31Polymask
  leaveCritical
  return ((lfsr32SecondShift ^^^ lfsr31FirstShift) &&& 0xFFFF).setWidth 16

def tbxRandomNumberGet : RandomCode (BitVec 32) := do
  let state ← read
  if state.seeded = false then do
    tbxRandomInitLFSRs
    modify fun state => { state with seeded := true }
  let high ← tbxRandomNumber16BitGet
  let low ← tbxRandomNumber16BitGet
  return high.setWidth 32 <<< 16 ||| low.setWidth 32

def tbxRandomSetSeedInitHandler (seedInitHandler : Option SeedInitHandler) :
    RandomCode Unit := do
  randomAssert .tbxRandomSetSeedInitHandler seedInitHandler.isSome
  if seedInitHandler.isSome then
    modify fun state => { state with tbxRandomSeedInitHandler := seedInitHandler }

/-! ## The interface -/

/-- What the application may call. -/
inductive RandomCall
  | numberGet
  | setSeedInitHandler (seedInitHandler : Option SeedInitHandler)

def RandomCall.perform : RandomCall → RandomCode (Option (BitVec 32))
  | .numberGet => do
      let number ← tbxRandomNumberGet
      return some number
  | .setSeedInitHandler seedInitHandler => do
      tbxRandomSetSeedInitHandler seedInitHandler
      return none

/-- Every call is allowed at any time. -/
def randomInterface : Interface RandomState Empty RandomCall (Option (BitVec 32)) where
  initial := .initial
  allowed := fun _ _ _ => True
  perform := RandomCall.perform

instance (history : List (Exchange RandomState RandomCall (Option (BitVec 32))))
    (state : RandomState) (call : RandomCall) :
    Decidable (randomInterface.allowed history state call) :=
  inferInstanceAs (Decidable True)

end MicroTbx

import MicroTbx.CritSect.CoreRelease
import MicroTbx.MemPool.Nesting
import MicroTbx.Preemptive.Cores

/-! # Cores that share objects come to rest

Neither the spin lock nor the sections of the library keep a core from finishing
its calls: left alone, the cores come to rest in any order of their steps, with
all calls answered and the lock free.
-/

namespace MicroTbx

open Program

variable {target : Target} {sdk : Sdk} {lock room : Nat} {guard : Cores (Fin sdk.numCores)}
  {config : SlotsConfig (Fin sdk.numCores) State (Cores (Fin sdk.numCores)) (BitVec 32) Fault
    ObjectCall ObjectReply}

theorem ObjectCall.bounded (call : ObjectCall) :
    (call.performProtected target).Bounded (room + 2) 0 := by
  cases call with
  | read memPtr index => exact (Bounded.protect bounded_load).part fun _ => .pure _
  | pool call =>
      have hpool : (call.perform target).Bounded (room + 2) 0 →
          (ObjectCall.perform target (.pool call)).Bounded (room + 2) 0 :=
        fun hperform => hperform.part fun _ => .pure _
      cases call with
      | create numBlocks blockSize => exact hpool (bounded_poolCreate.part fun _ => .pure _)
      | allocate size => exact hpool (bounded_poolAllocate.part fun _ => .pure _)
      | allocateAuto size => exact hpool (bounded_poolAllocateAuto.part fun _ => .pure _)
      | release memPtr => exact hpool (bounded_poolRelease.part fun _ => .pure _)
      | heapAllocate size => exact hpool (bounded_heapAllocate.part fun _ => .pure _)
      | write memPtr index value =>
          exact (Bounded.protect (Bounded.modify _)).part fun _ => .pure _

/-- All calls have returned, memory holds the objects, and the lock is free. -/
structure DoneAcrossCores (target : Target) (lock : Nat)
    (config : SlotsConfig (Fin sdk.numCores) State (Cores (Fin sdk.numCores)) (BitVec 32) Fault
      ObjectCall ObjectReply) : Prop where
  rest : config.AtRest
  returned : ∀ client, pendingCall config.moves client = none
  placed : ∀ object ∈ sharedObjects config.moves, InHeap target config.shared object
  free : config.guard.hardware.holder lock = none

/-- Whatever the cores are in the middle of, they cannot go on forever when they
are left alone, and where none of them can go on they are done. -/
theorem cores_come_to_rest (hguard : SpinLockReady lock guard)
    (hreachable : sdk.machine.CoresReachable (coreClients target)
      (sdk.machine.startCores .initial guard) config) :
    Acc (fun next before => sdk.machine.GoesOn (coreClients target) before next) config ∧
      ∀ final, Relation.ReflTransGen (sdk.machine.GoesOn (coreClients target)) config final →
        (∀ next, ¬ sdk.machine.GoesOn (coreClients target) final next) →
          DoneAcrossCores target lock final := by
  refine ⟨(Machine.goesOn_wellFounded _ _).apply config, fun final hgoes hstuck => ?_⟩
  have hfinal : sdk.machine.CoresReachable (coreClients target)
      (sdk.machine.startCores .initial guard) final :=
    hreachable.trans (Relation.ReflTransGen.mono (fun _ _ => Machine.GoesOn.coreStep) _ _ hgoes)
  obtain ⟨seen, world, hsimulates, hagrees⟩ := exists_objectWorld hguard hfinal
  have hrest : final.AtRest :=
    Machine.CoresReachable.atRest MultiCore.machine_excludes coreClients_guarded coreClients_allowed
      (fun _ _ call _ => call.bounded) hguard.settled (MultiCore.machine_releases hguard)
      (fun _ => coreClients_live) hfinal hstuck
  have hreturned : ∀ client, pendingCall final.moves client = none := by
    intro client
    rw [← hsimulates.moves, pendingCall_visible, ← hagrees.moves]
    exact hagrees.idle client (hsimulates.idle_of_atRest hrest client)
  refine ⟨hrest, hreturned, ?_, ?_⟩
  · exact (keeps_of_agrees hsimulates hagrees).placed (hsimulates.outside_of_atRest hrest) hreturned
  · -- A core that had the lock would be in a section, and so in a call.
    by_contra hheld
    obtain ⟨core, hcore⟩ := Option.ne_none_iff_exists'.mp hheld
    obtain ⟨control, hslots⟩ := hrest core
    exact hsimulates.not_owner (MultiCore.machine_releases hguard) hslots rfl hcore

/-- The first core is inside of a section, and the second one waits for it. -/
def lockContested : List (Fin 2 × Machine.CoreChoice ObjectCall) :=
  [(firstCore, .call (.pool (.allocateAuto 8)))] ++ List.replicate 60 (firstCore, .advance) ++
    [(secondCore, .call (.pool (.allocateAuto 8)))] ++ List.replicate 7 (secondCore, .advance)

theorem cores_come_to_rest_contested : ∃ config,
    pico.machine.CoresReachable (coreClients linux64)
      (pico.machine.startCores .initial picoReady) config ∧
    config.guard.hardware.holder 24 = some 0 ∧
    (pico.machine.coreMove (coreClients linux64) config 1 .advance).isNone ∧
    Acc (fun next before => pico.machine.GoesOn (coreClients linux64) before next) config ∧
      ∀ final, Relation.ReflTransGen (pico.machine.GoesOn (coreClients linux64)) config final →
        (∀ next, ¬ pico.machine.GoesOn (coreClients linux64) final next) →
          DoneAcrossCores linux64 24 final := by
  have hready : SpinLockReady 24 picoReady := ⟨rfl, rfl, fun _ => rfl, rfl, rfl⟩
  have hschedule : (pico.machine.coreSchedule (coreClients linux64)
      (pico.machine.startCores .initial picoReady) lockContested).map
        (fun config => decide (config.guard.hardware.holder 24 = some 0 ∧
          (pico.machine.coreMove (coreClients linux64) config 1 .advance).isNone)) = some true := by
    decide +kernel
  obtain ⟨config, hconfig, hwaiting⟩ := Option.map_eq_some_iff.mp hschedule
  obtain ⟨hholder, hblocked⟩ := of_decide_eq_true hwaiting
  have hreachable := Machine.reachable_of_coreSchedule hconfig
  exact ⟨config, hreachable, hholder, hblocked, cores_come_to_rest hready hreachable⟩

end MicroTbx

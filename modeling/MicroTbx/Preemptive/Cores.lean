import MicroTbx.CritSect.CoreExclusion
import MicroTbx.Preemptive.Sharing

/-! # Sharing objects across cores

Every core runs a program and handlers that make objects, access them in
sections, and hand them to each other. They wait for each other only at the spin
lock of the port. However their instructions follow each other, the contexts
share one store of objects.
-/

namespace Program

variable {State Fault Result Next : Type} {program : Program State Fault Result}

/-- A call that is one section acts in that only. -/
theorem Atomic.guarded (hprogram : program.Atomic) (hsection : ∀ act next, program ≠ .step act next) :
    program.Guarded 0 := by
  cases program with
  | ret result => exact hprogram.elim
  | fault reason => exact hprogram.elim
  | step act next => exact absurd rfl (hsection act next)
  | enter next => exact Closes.guarded hprogram
  | leave next => exact hprogram.elim

end Program

namespace MicroTbx

open Program

variable {target : Target} {size count memPtr : Nat}

/-! ## Calls that act in sections only -/

theorem tbxHeapAllocate_guarded (hsize : 0 < size) : (tbxHeapAllocate target size).Guarded 0 := by
  apply (tbxHeapAllocate_atomic hsize).guarded
  intro act next heq
  rw [tbxHeapAllocate, decide_eq_true hsize, if_pos hsize] at heq
  cases heq

theorem tbxMemPoolCreate_guarded (hcount : 0 < count) (hsize : 0 < size) :
    (tbxMemPoolCreate target count size).Guarded 0 := by
  apply (tbxMemPoolCreate_atomic hcount hsize).guarded
  intro act next heq
  rw [tbxMemPoolCreate, decide_eq_true hcount, decide_eq_true hsize, if_pos ⟨hcount, hsize⟩] at heq
  cases heq

theorem tbxMemPoolAllocate_guarded (hsize : 0 < size) :
    (tbxMemPoolAllocate target size).Guarded 0 := by
  apply (tbxMemPoolAllocate_atomic hsize).guarded
  intro act next heq
  rw [tbxMemPoolAllocate, decide_eq_true hsize, if_pos hsize] at heq
  cases heq

theorem tbxMemPoolRelease_guarded (hmemPtr : memPtr ≠ null) :
    (tbxMemPoolRelease target memPtr).Guarded 0 := by
  apply (tbxMemPoolRelease_atomic hmemPtr).guarded
  intro act next heq
  rw [tbxMemPoolRelease, decide_eq_true hmemPtr, if_pos hmemPtr] at heq
  cases heq

theorem findPool_guarded : (findPool target size).Guarded 0 := by
  apply findPool_atomic.guarded
  intro act next heq
  cases heq

/-- An allocation on demand is made of several sections. -/
theorem tbxMemPoolAllocateAuto_guarded (hsize : 0 < size) :
    (tbxMemPoolAllocateAuto target size).Guarded 0 := by
  have hmake : Program.Guarded 0 (do
      let created ← tbxMemPoolCreate target 1 size
      if created = .ok then tbxMemPoolAllocate target size else pure null : Code Nat) := by
    apply (tbxMemPoolCreate_guarded Nat.one_pos hsize).bind
    exact fun _ => (tbxMemPoolAllocate_guarded hsize).ite (.pure null)
  rw [tbxMemPoolAllocateAuto_eq hsize]
  apply findPool_guarded.bind
  intro poolNodePtr
  apply hmake.ite
  apply (tbxMemPoolAllocate_guarded hsize).bind
  exact fun result => hmake.ite (.pure result)

namespace ObjectCall

/-- The arguments pass the checks that the functions make of them. -/
def Valid : ObjectCall → Prop
  | .pool (.create numBlocks blockSize) => 0 < numBlocks ∧ 0 < blockSize
  | .pool (.allocate size) | .pool (.allocateAuto size) | .pool (.heapAllocate size) => 0 < size
  | .pool (.release memPtr) => memPtr ≠ null
  | .pool (.write _ _ _) | .read _ _ => True

instance (call : ObjectCall) : Decidable call.Valid :=
  match call with
  | .pool (.create _ _) => inferInstanceAs (Decidable (_ ∧ _))
  | .pool (.allocate _) | .pool (.allocateAuto _) | .pool (.heapAllocate _) =>
      inferInstanceAs (Decidable (_ < _))
  | .pool (.release _) => inferInstanceAs (Decidable (_ ≠ _))
  | .pool (.write _ _ _) | .read _ _ => inferInstanceAs (Decidable True)

variable (target) in
/-- Accesses to objects are made in sections of their own. -/
def performProtected : ObjectCall → Code ObjectReply
  | .pool (.write memPtr index value) => do
      protect (modify (·.store (target.field memPtr index) value))
      return .pool .none
  | .read memPtr index => do
      let result ← protect (load target memPtr index)
      return .value result
  | call => call.perform target

variable {call : ObjectCall}

theorem Valid.guarded (hcall : call.Valid) : (call.performProtected target).Guarded 0 := by
  cases call with
  | read memPtr index => exact balanced_load.protect_guarded.bind fun _ => .pure _
  | pool call =>
      have hpool : (call.perform target).Guarded 0 →
          (ObjectCall.perform target (.pool call)).Guarded 0 :=
        fun hperform => hperform.bind fun _ => .pure _
      cases call with
      | create numBlocks blockSize =>
          exact hpool ((tbxMemPoolCreate_guarded hcall.1 hcall.2).bind fun _ => .pure _)
      | allocate size => exact hpool ((tbxMemPoolAllocate_guarded hcall).bind fun _ => .pure _)
      | allocateAuto size =>
          exact hpool ((tbxMemPoolAllocateAuto_guarded hcall).bind fun _ => .pure _)
      | release memPtr => exact hpool ((tbxMemPoolRelease_guarded hcall).bind fun _ => .pure _)
      | heapAllocate size => exact hpool ((tbxHeapAllocate_guarded hcall).bind fun _ => .pure _)
      | write memPtr index value =>
          exact (Balanced.modify _).protect_guarded.bind fun _ => .pure _

end ObjectCall

/-! ## Contexts on all cores -/

/-- Contexts that share objects, each of which it accesses in sections. -/
def coreClients {Client : Type} [DecidableEq Client] (target : Target) :
    Clients Client State Fault ObjectCall ObjectReply where
  allowed moves client call := (objectClients target).allowed moves client call ∧ call.Valid
  perform := ObjectCall.performProtected target

section Clients

variable {Client : Type} [DecidableEq Client] {client : Client} {moves : ObjectMoves Client}
  {world : ObjectWorld Client} {request : ObjectCall}

/-- A context that has made no move has no call pending. -/
theorem mem_of_pendingCall (hpending : pendingCall moves client = some request) :
    client ∈ moves.map Prod.fst := by
  induction moves with
  | nil => cases hpending
  | cons entry earlier ih =>
      obtain ⟨other, move⟩ := entry
      by_cases hother : other = client
      · exact hother ▸ List.mem_cons_self
      · -- What another context does leaves the call as it is.
        apply List.mem_cons_of_mem
        apply ih
        cases move with
        | called => rwa [pendingCall, if_neg hother] at hpending
        | returned => rwa [pendingCall, if_neg hother] at hpending
        | stepped => exact hpending

instance (moves : ObjectMoves Client) (client : Client) (call : ObjectCall) :
    Decidable ((coreClients target).allowed moves client call) :=
  -- Only contexts that have made a move have to be looked at.
  have hclients : (∀ other ∈ moves.map Prod.fst, ∀ pending ∈ pendingCall moves other,
      call.Compatible pending) ↔
      ∀ other, ∀ pending ∈ pendingCall moves other, call.Compatible pending :=
    ⟨fun hall other pending hpending => hall other (mem_of_pendingCall hpending) pending hpending,
      fun hall other _ => hall other⟩
  have := decidable_of_iff _ hclients
  inferInstanceAs (Decidable ((call.Allowed target (sharedObjects moves) ∧ _) ∧ call.Valid))

theorem ObjectCall.follows_protected (hallowed : request.Allowed target (sharedObjects moves))
    (hne : ∀ object ∈ sharedObjects moves, object.pointer ≠ null)
    (hworld : pendingCall world.moves client = some request)
    (hreleased : ∀ memPtr, request = .pool (.release memPtr) → world.holder memPtr = some client) :
    (sharing target).Follows client request ((sharing target).done client request)
      (request.performProtected target) world := by
  have hplain := ObjectCall.follows hallowed hne hworld hreleased
  have hdone : ∀ reply, (sharing target).Stable client ((sharing target).done client request reply) :=
    fun _ => answered_stable
  cases request with
  | read memPtr index =>
      obtain ⟨object, hobject, rfl, -⟩ := hallowed
      exact (shares_read balanced_load.protect_atomic Returns.protect (hne object hobject)
        hworld).map hdone fun _ _ hpost => hpost
  | pool call =>
      cases call with
      | write memPtr index value =>
          exact (shares_write (Balanced.modify _).protect_atomic Returns.protect hworld).map
            (fun _ => hdone _) fun _ _ hpost => hpost
      | create | allocate | allocateAuto | release | heapAllocate => exact hplain

theorem sharing_sound_protected : (sharing target).Sound
    (coreClients target : Clients Client State Fault ObjectCall ObjectReply) where
  suffix := fun _ _ _ => trivial
  idle := sharing_sound.idle
  call := by
    rintro client request world hsound hidle ⟨hallowed, -⟩ -
    refine ⟨world.told client (.called request) request.calledEvent, rfl,
      hsound.called hidle hallowed, ?_⟩
    apply ObjectCall.follows_protected hallowed.1 hsound.ne_null pendingCall_called
    rintro memPtr rfl
    exact Function.update_self ..
  finish := sharing_sound.finish

/-- A call of a context that shares objects acts in sections. -/
theorem coreClients_guarded (moves : ObjectMoves Client) (client : Client) (request : ObjectCall)
    (hallowed : (coreClients target).allowed moves client request) :
    ((coreClients target : Clients Client State Fault ObjectCall ObjectReply).perform
      request).Guarded 0 := hallowed.2.guarded

theorem coreClients_allowed (moves : ObjectMoves Client) (client : Client) (request : ObjectCall)
    (hallowed : (coreClients target).allowed (visible moves) client request) :
    (coreClients target).allowed moves client request :=
  ⟨objectClients_allowed hallowed.1, hallowed.2⟩

theorem coreClients_live {seen : ClientConfig Client State Fault ObjectCall ObjectReply}
    (hseen : (coreClients target).Reachable .initial seen) : Clients.Live seen := by
  obtain ⟨world, hagrees⟩ :=
    sharing_sound_protected.reachable ObjectWorld.initial_sound rfl (fun _ => rfl) hseen trivial
  exact hagrees.live

end Clients

/-! ## The guarantee -/

variable {sdk : Sdk} {lock : Nat}

/-- What contexts on all cores can rely on. -/
structure SharesAcrossCores {Core : Type} [DecidableEq Core] (target : Target)
    (config : SlotsConfig Core State (Cores Core) (BitVec 32) Fault ObjectCall ObjectReply) : Prop
    extends KeepsObjects target config.moves config.shared config.OutsideSections where
  faultless : config.Faultless

section Runs

variable {guard : Cores (Fin sdk.numCores)}
  {config : SlotsConfig (Fin sdk.numCores) State (Cores (Fin sdk.numCores)) (BitVec 32) Fault
    ObjectCall ObjectReply}

/-- What is seen of the cores agrees with a store of objects. -/
theorem exists_objectWorld (hguard : SpinLockReady lock guard)
    (hreachable : sdk.machine.CoresReachable (coreClients target)
      (sdk.machine.startCores .initial guard) config) :
    ∃ seen world, sdk.machine.SimulatesCores (MultiCore.locking (Fin sdk.numCores) lock) config seen ∧
      (sharing target).Agrees seen world := by
  obtain ⟨seen, hseen, hsimulates⟩ := Machine.SimulatesCores.reachable MultiCore.machine_excludes
    coreClients_guarded coreClients_allowed hguard.settled hreachable
  obtain ⟨world, hagrees⟩ :=
    sharing_sound_protected.reachable ObjectWorld.initial_sound rfl (fun _ => rfl) hseen trivial
  exact ⟨seen, world, hsimulates, hagrees⟩

theorem keeps_of_agrees {seen : ClientConfig (Fin sdk.numCores × Nat) State Fault ObjectCall
      ObjectReply} {world : ObjectWorld (Fin sdk.numCores × Nat)}
    (hsimulates : sdk.machine.SimulatesCores (MultiCore.locking (Fin sdk.numCores) lock) config seen)
    (hagrees : (sharing target).Agrees seen world) :
    KeepsObjects target config.moves config.shared config.OutsideSections := by
  have hsound : world.Sound target := hagrees.inv
  exact hsound.keeps ((congrArg visible hagrees.moves).trans hsimulates.moves)
    fun houtside => hagrees.state.trans (hsimulates.shared houtside)

/-- Where the spin lock is set up, contexts on all cores share a store of
objects, however the steps of the cores follow each other. -/
theorem objects_shared_across_cores (hguard : SpinLockReady lock guard)
    (hreachable : sdk.machine.CoresReachable (coreClients target)
      (sdk.machine.startCores .initial guard) config) : SharesAcrossCores target config := by
  obtain ⟨seen, world, hsimulates, hagrees⟩ := exists_objectWorld hguard hreachable
  exact ⟨keeps_of_agrees hsimulates hagrees, hsimulates.faultless hagrees.live⟩

end Runs

/-- The cores of the chip. -/
def firstCore : Fin 2 := ⟨0, Nat.zero_lt_two⟩

def secondCore : Fin 2 := ⟨1, Nat.one_lt_two⟩

/-- The second core waits for the first to leave its section. A handler on the
second core then reads and releases the object of the first, whose block is the
next one that is allocated. -/
def objectContested : List (Fin 2 × Machine.CoreChoice ObjectCall) :=
  [(firstCore, .call (.pool (.allocateAuto 8)))] ++ List.replicate 60 (firstCore, .advance) ++
    [(secondCore, .call (.pool (.allocateAuto 8)))] ++ List.replicate 7 (secondCore, .advance) ++
    List.replicate 167 (firstCore, .advance) ++
    [(firstCore, .finish), (firstCore, .call (.pool (.write 4176 0 7)))] ++
    List.replicate 28 (firstCore, .advance) ++ [(firstCore, .finish)] ++
    List.replicate 24 (secondCore, .advance) ++
    [(secondCore, .interrupt), (secondCore, .call (.read 4176 0))] ++
    List.replicate 28 (secondCore, .advance) ++
    [(secondCore, .finish), (secondCore, .call (.pool (.release 4176)))] ++
    List.replicate 42 (secondCore, .advance) ++
    [(secondCore, .finish), (secondCore, .handlerReturn)] ++
    List.replicate 42 (secondCore, .advance) ++ [(secondCore, .finish)]

theorem objects_shared_across_cores_contested : ∃ config,
    pico.machine.CoresReachable (coreClients linux64)
      (pico.machine.startCores .initial picoReady) config ∧
    config.moves.length = 10 ∧ (sharedObjects config.moves).map StoredObject.pointer = [4176] ∧
    SharesAcrossCores linux64 config := by
  have hready : SpinLockReady 24 picoReady := ⟨rfl, rfl, fun _ => rfl, rfl, rfl⟩
  have hschedule : (pico.machine.coreSchedule (coreClients linux64)
      (pico.machine.startCores .initial picoReady) objectContested).map
        (fun config => decide (config.moves.length = 10 ∧
          (sharedObjects config.moves).map StoredObject.pointer = [4176])) = some true := by
    decide +kernel
  obtain ⟨config, hconfig, hmoves⟩ := Option.map_eq_some_iff.mp hschedule
  obtain ⟨hlength, hobjects⟩ := of_decide_eq_true hmoves
  have hreachable := Machine.reachable_of_coreSchedule hconfig
  exact ⟨config, hreachable, hlength, hobjects, objects_shared_across_cores hready hreachable⟩

end MicroTbx

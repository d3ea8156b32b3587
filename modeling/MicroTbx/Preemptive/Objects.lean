import MicroTbx.Foundation.Processor
import MicroTbx.MemPool.Objects
import MicroTbx.MemPool.Sections

/-! # Objects shared by contexts

Contexts make, write, read and delete objects in the blocks of the pools. Calls
take effect somewhere between call and return, in steps of which another
context may come in between. A world records the store that has come about by
the effects; contexts know of the store that their calls and returns tell of.
-/

namespace MicroTbx

open Program

/-- What a context does with memory. -/
inductive ObjectCall
  | pool (call : PoolCall)
  | read (memPtr index : Nat)

inductive ObjectReply
  | pool (reply : PoolReply)
  | value (result : Nat)
  deriving DecidableEq

abbrev ObjectMove := ClientMove State ObjectCall ObjectReply

abbrev ObjectMoves (Client : Type) := List (Client × ObjectMove)

namespace ObjectCall

variable (target : Target)

def perform : ObjectCall → Code ObjectReply
  | .pool call => do
      let reply ← call.perform target
      return .pool reply
  | .read memPtr index => do
      let result ← load target memPtr index
      return .value result

/-- The place of an object that the call writes. -/
def written? : ObjectCall → Option (Nat × Nat)
  | .pool (.write memPtr index _) => some (memPtr, index)
  | _ => none

/-- The place of an object that the call writes or reads. -/
def place? : ObjectCall → Option (Nat × Nat)
  | .pool (.write memPtr index _) | .read memPtr index => some (memPtr, index)
  | _ => none

/-- The call does not interfere with another one that has not returned. -/
def Compatible (call pending : ObjectCall) : Prop :=
  match call with
  | .pool (.release memPtr) => ∀ place ∈ pending.place?, place.1 ≠ memPtr
  | .pool (.write memPtr index _) => pending.place? ≠ some (memPtr, index)
  | .read memPtr index => pending.written? ≠ some (memPtr, index)
  | _ => True

instance (call pending : ObjectCall) : Decidable (call.Compatible pending) :=
  match call with
  | .pool (.release _) => inferInstanceAs (Decidable (∀ place ∈ pending.place?, _))
  | .pool (.write _ _ _) => inferInstanceAs (Decidable (_ ≠ _))
  | .read _ _ => inferInstanceAs (Decidable (_ ≠ _))
  | .pool (.create _ _) | .pool (.allocate _) | .pool (.allocateAuto _)
  | .pool (.heapAllocate _) => inferInstanceAs (Decidable True)

/-- A context releases, writes and reads objects, in their bounds. -/
def Allowed (objects : List (StoredObject Nat)) : ObjectCall → Prop
  | .pool (.create numBlocks blockSize) =>
      numBlocks < 2 ^ target.sizeBits ∧ blockSize < 2 ^ target.sizeBits ∧ target.Sound blockSize
  | .pool (.allocateAuto size) => size < 2 ^ target.sizeBits ∧ target.Sound size
  | .pool (.allocate size) | .pool (.heapAllocate size) => size < 2 ^ target.sizeBits
  | .pool (.release memPtr) => memPtr ∈ objects.map StoredObject.pointer
  | .pool (.write memPtr index _) | .read memPtr index =>
      ∃ object ∈ objects, object.pointer = memPtr ∧ index * target.word < object.size

instance (objects : List (StoredObject Nat)) (call : ObjectCall) :
    Decidable (call.Allowed target objects) :=
  match call with
  | .pool (.create _ _) => inferInstanceAs (Decidable (_ ∧ _ ∧ _))
  | .pool (.allocateAuto _) => inferInstanceAs (Decidable (_ ∧ _))
  | .pool (.allocate _) | .pool (.heapAllocate _) => inferInstanceAs (Decidable (_ < _))
  | .pool (.release _) => inferInstanceAs (Decidable (_ ∈ _))
  | .pool (.write _ _ _) | .read _ _ => inferInstanceAs (Decidable (∃ object ∈ objects, _))

/-- The object that the call gives up. -/
def calledEvent : ObjectCall → StoreEvent Nat
  | .pool (.release memPtr) => .dropped memPtr
  | _ => .idle

/-- What the caller is told of the objects. -/
def returnedEvent : ObjectCall → ObjectReply → StoreEvent Nat
  | .pool (.allocate size), .pool (.pointer data)
  | .pool (.allocateAuto size), .pool (.pointer data) =>
      if data = null then .idle else .made size data
  | .pool (.write memPtr index value), _ => .wrote memPtr index value
  | .read memPtr index, .value value => .read memPtr index value
  | _, _ => .idle

end ObjectCall

section Definitions

variable {Client : Type} [DecidableEq Client] (target : Target)

/-- What the contexts know of the objects, the newest event first. -/
def objectEvents : ObjectMoves Client → List (StoreEvent Nat)
  | [] => []
  | (_, .called request) :: earlier => request.calledEvent :: objectEvents earlier
  | (_, .returned request result) :: earlier =>
      request.returnedEvent result :: objectEvents earlier
  | (_, .stepped _ _ _) :: earlier => objectEvents earlier

/-- The objects that the contexts may use. -/
def sharedObjects (moves : ObjectMoves Client) : List (StoredObject Nat) :=
  ObjectStore.objects (objectEvents moves)

/-- The call of a context that has not returned. -/
def pendingCall : ObjectMoves Client → Client → Option ObjectCall
  | [], _ => none
  | (other, .called request) :: earlier, client =>
      if other = client then some request else pendingCall earlier client
  | (other, .returned _ _) :: earlier, client =>
      if other = client then none else pendingCall earlier client
  | (_, .stepped _ _ _) :: earlier, client => pendingCall earlier client

/-- Contexts that use no place of an object while another one writes it, and
release no object that another one uses. -/
def objectClients : Clients Client State Fault ObjectCall ObjectReply where
  allowed moves _ call := call.Allowed target (sharedObjects moves) ∧
    ∀ other, ∀ pending ∈ pendingCall moves other, call.Compatible pending
  perform := ObjectCall.perform target

instance [Fintype Client] (moves : ObjectMoves Client) (client : Client) (call : ObjectCall) :
    Decidable ((objectClients target).allowed moves client call) :=
  inferInstanceAs (Decidable (_ ∧ ∀ other, ∀ pending ∈ pendingCall moves other, _))

/-- The shared state, what it holds, and who has blocks in hand: blocks that were
allocated and not returned yet, or are to be released. -/
structure ObjectWorld (Client : Type) where
  state : State
  moves : ObjectMoves Client
  owner : Ownership
  views : List PoolView
  objects : List (StoredObject Nat)
  holder : Nat → Option Client

/-- A place that is being written. -/
def BeingWritten (moves : ObjectMoves Client) (place : Nat × Nat) : Prop :=
  ∃ client, ∃ pending ∈ pendingCall moves client, pending.written? = some place

/-- The store is in the pools, and is what the contexts know of it. -/
structure ObjectWorld.Sound (world : ObjectWorld Client) : Prop where
  stored : ObjectsAt target world.owner world.views world.objects world.state
  checks : ∀ failed ∈ asserted world.state.log, failed ∈ argumentChecks
  legal : ObjectStore.Legal (objectEvents world.moves)
  covers : ObjectStore.Covers (BeingWritten world.moves) (sharedObjects world.moves) world.objects
  held : ∀ data client, world.holder data = some client →
    data ∈ world.objects.map StoredObject.pointer ∧
      data ∉ (sharedObjects world.moves).map StoredObject.pointer
  used : ∀ client, ∀ pending ∈ pendingCall world.moves client, ∀ place ∈ pending.place?,
    ∃ object ∈ sharedObjects world.moves, object.pointer = place.1 ∧
      place.2 * target.word < object.size
  races : ∀ client other, client ≠ other → ∀ pending ∈ pendingCall world.moves client,
    ∀ another ∈ pendingCall world.moves other, ∀ place ∈ pending.written?,
      another.place? ≠ some place

/-- What others do leaves alone what a context holds or uses. -/
structure LeavesObjects (client : Client) (world next : ObjectWorld Client) : Prop where
  pending : pendingCall next.moves client = pendingCall world.moves client
  holder : ∀ data, next.holder data = some client ↔ world.holder data = some client
  held : ∀ object ∈ world.objects, world.holder object.pointer = some client →
    object ∈ next.objects
  used : ∀ pending ∈ pendingCall world.moves client, ∀ place ∈ pending.place?,
    ObjectStore.KeepsAt place world.objects next.objects ∧
      ObjectStore.KeepsAt place (sharedObjects world.moves) (sharedObjects next.moves)

/-- What a context knows when its call has a result. -/
def Answered (client : Client) (world : ObjectWorld Client) : ObjectCall → ObjectReply → Prop
  | .pool (.allocate size), .pool (.pointer data)
  | .pool (.allocateAuto size), .pool (.pointer data) =>
      data ≠ null → world.holder data = some client ∧ .fresh size data ∈ world.objects
  | .pool (.write memPtr index value), _ =>
      ∃ twin ∈ world.objects, twin.pointer = memPtr ∧ twin.contents index = some value
  | .read memPtr index, .value value =>
      ObjectStore.Permits (sharedObjects world.moves) (.read memPtr index value)
  | _, _ => True

/-- The discipline that contexts follow with their objects. -/
def sharing : Discipline Client State ObjectCall ObjectReply (ObjectWorld Client) where
  state := ObjectWorld.state
  moves := ObjectWorld.moves
  inv := ObjectWorld.Sound target
  rely := LeavesObjects
  meets _ := True
  idle client world := pendingCall world.moves client = none
  done client request result world :=
    pendingCall world.moves client = some request ∧ Answered client world request result

/-- What a step of a context does to the store and to the blocks in hand. -/
inductive Effect (client : Client) (world : ObjectWorld Client) :
    StoreEvent Nat → (Nat → Option Client) → Prop
  | none : Effect client world .idle world.holder
  | made {size data : Nat} (new : data ∉ world.objects.map StoredObject.pointer) :
      Effect client world (.made size data) (Function.update world.holder data (some client))
  | dropped {data : Nat} (holds : world.holder data = some client) :
      Effect client world (.dropped data) (Function.update world.holder data Option.none)
  | wrote {memPtr index value : Nat}
      (pending : pendingCall world.moves client = some (.pool (.write memPtr index value))) :
      Effect client world (.wrote memPtr index value) world.holder

/-- Who has blocks in hand when contexts are told of an object or give one up. -/
def handedOver (client : Client) (holder : Nat → Option Client) :
    StoreEvent Nat → Nat → Option Client
  | .made _ data => Function.update holder data none
  | .dropped data => Function.update holder data (some client)
  | _ => holder

/-- The world after a call or a return, and what it tells of the objects. -/
@[simps]
def ObjectWorld.told (world : ObjectWorld Client) (client : Client) (move : ObjectMove)
    (event : StoreEvent Nat) : ObjectWorld Client :=
  { world with
    moves := (client, move) :: world.moves
    holder := handedOver client world.holder event }

/-- The world after a step. -/
@[simps]
def ObjectWorld.stepped (world : ObjectWorld Client) (client : Client) (request : ObjectCall)
    (after : State) (owner : Ownership) (views : List PoolView) (event : StoreEvent Nat)
    (holder : Nat → Option Client) : ObjectWorld Client where
  state := after
  moves := (client, .stepped request world.state after) :: world.moves
  owner := owner
  views := views
  objects := ObjectStore.step world.objects event
  holder := holder

end Definitions

variable {Client : Type} [DecidableEq Client] {target : Target} {client other : Client}
  {world next : ObjectWorld Client} {moves : ObjectMoves Client} {request : ObjectCall}
  {reply : ObjectReply} {owner larger : Ownership} {views others : List PoolView}
  {after : State} {event : StoreEvent Nat} {holder : Nat → Option Client}
  {size data memPtr index value : Nat}

/-! ## Calls -/

theorem ObjectCall.place_of_written {place : Nat × Nat} (hwritten : request.written? = some place) :
    request.place? = some place := by
  cases request with
  | pool call =>
      cases call with
      | write memPtr index value => exact hwritten
      | _ => cases hwritten
  | read memPtr index => cases hwritten

@[simp] theorem pendingCall_called :
    pendingCall ((client, .called request) :: moves) client = some request := if_pos rfl

@[simp] theorem pendingCall_returned :
    pendingCall ((client, .returned request reply) :: moves) client = none := if_pos rfl

/-- A move of a context is no call or return of the others. -/
theorem pendingCall_of_ne {move : ObjectMove} (hother : other ≠ client) :
    pendingCall ((client, move) :: moves) other = pendingCall moves other := by
  cases move with
  | called request => exact if_neg (Ne.symm hother)
  | stepped request before after => rfl
  | returned request result => exact if_neg (Ne.symm hother)

omit [DecidableEq Client] in
/-- Only calls and returns tell of the objects. -/
@[simp] theorem objectEvents_visible : objectEvents (visible moves) = objectEvents moves := by
  induction moves with
  | nil => rfl
  | cons move moves ih =>
      obtain ⟨client, request | ⟨request, before, after⟩ | ⟨request, result⟩⟩ := move
      · exact congrArg (request.calledEvent :: ·) ih
      · exact ih
      · exact congrArg (request.returnedEvent result :: ·) ih

@[simp] theorem pendingCall_visible : pendingCall (visible moves) = pendingCall moves := by
  funext client
  induction moves with
  | nil => rfl
  | cons move moves ih =>
      obtain ⟨other, request | ⟨request, before, after⟩ | ⟨request, result⟩⟩ := move
      · change ite _ _ (pendingCall (visible moves) client) = _
        rw [ih]
        rfl
      · exact ih
      · change ite _ _ (pendingCall (visible moves) client) = _
        rw [ih]
        rfl

/-! ## Steps -/

namespace Effect

/-- A step changes no place that another context uses. -/
theorem not_changes (heffect : Effect client world event holder) (hsound : world.Sound target)
    (hother : other ≠ client) {pending : ObjectCall}
    (hpending : pending ∈ pendingCall world.moves other) {place : Nat × Nat}
    (hplace : place ∈ pending.place?) : ¬ ObjectStore.Changes place.1 place.2 event := by
  cases heffect with
  | none => exact id
  | made new => exact id
  | dropped holds =>
      rintro rfl
      obtain ⟨object, hobject, hpointer, -⟩ := hsound.used other pending hpending place hplace
      exact (hsound.held _ _ holds).2 (List.mem_map.mpr ⟨object, hobject, hpointer⟩)
  | wrote mine =>
      rintro ⟨rfl, rfl⟩
      exact hsound.races client other (Ne.symm hother) _ mine pending hpending place rfl hplace

/-- A step leaves to the others what they have in hand. -/
theorem holder_iff (heffect : Effect client world event holder) (hsound : world.Sound target)
    (hother : other ≠ client) (data : Nat) :
    holder data = some other ↔ world.holder data = some other := by
  cases heffect with
  | none => exact Iff.rfl
  | @made size new fresh =>
      by_cases hsame : data = new
      · subst hsame
        rw [Function.update_self]
        constructor
        · intro heq
          exact absurd (Option.some.inj heq).symm hother
        · exact fun hheld => absurd (hsound.held _ _ hheld).1 fresh
      · rw [Function.update_of_ne hsame]
  | @dropped gone holds =>
      by_cases hsame : data = gone
      · subst hsame
        rw [Function.update_self, holds]
        constructor
        · exact fun heq => by cases heq
        · intro heq
          exact absurd (Option.some.inj heq).symm hother
      · rw [Function.update_of_ne hsame]
  | wrote mine => exact Iff.rfl

/-- The objects in hand of others are as they were. -/
theorem keeps_held (heffect : Effect client world event holder) (hsound : world.Sound target)
    (hother : other ≠ client) {object : StoredObject Nat} (hobject : object ∈ world.objects)
    (hheld : world.holder object.pointer = some other) :
    object ∈ ObjectStore.step world.objects event := by
  cases heffect with
  | none => exact hobject
  | made new => exact List.mem_cons_of_mem _ hobject
  | dropped holds =>
      refine List.mem_filter.mpr ⟨hobject, decide_eq_true ?_⟩
      rintro rfl
      exact hother (Option.some.inj (hheld.symm.trans holds))
  | @wrote memPtr index value mine =>
      refine List.mem_map.mpr ⟨object, hobject, if_neg ?_⟩
      rintro rfl
      obtain ⟨known, hknown, hpointer, -⟩ := hsound.used client _ mine _ rfl
      exact (hsound.held _ _ hheld).2 (List.mem_map.mpr ⟨known, hknown, hpointer⟩)

/-- Blocks in hand hold objects that the contexts do not know of. -/
theorem held (heffect : Effect client world event holder) (hsound : world.Sound target)
    (hheld : holder data = some other) :
    data ∈ (ObjectStore.step world.objects event).map StoredObject.pointer ∧
      data ∉ (sharedObjects world.moves).map StoredObject.pointer := by
  cases heffect with
  | none => exact hsound.held _ _ hheld
  | @made size new fresh =>
      by_cases hsame : data = new
      · subst hsame
        exact ⟨List.mem_cons_self, fun hmem => fresh (hsound.covers.mem_pointers hmem)⟩
      · rw [Function.update_of_ne hsame] at hheld
        obtain ⟨hmem, hnot⟩ := hsound.held _ _ hheld
        exact ⟨List.mem_cons_of_mem _ hmem, hnot⟩
  | @dropped gone holds =>
      by_cases hsame : data = gone
      · subst hsame
        rw [Function.update_self] at hheld
        cases hheld
      · rw [Function.update_of_ne hsame] at hheld
        obtain ⟨hmem, hnot⟩ := hsound.held _ _ hheld
        obtain ⟨object, hobject, rfl⟩ := List.mem_map.mp hmem
        exact ⟨List.mem_map_of_mem (List.mem_filter.mpr ⟨hobject, decide_eq_true hsame⟩), hnot⟩
  | wrote mine =>
      obtain ⟨hmem, hnot⟩ := hsound.held _ _ hheld
      refine ⟨?_, hnot⟩
      obtain ⟨object, hobject, rfl⟩ := List.mem_map.mp hmem
      exact List.mem_map.mpr ⟨_, List.mem_map_of_mem hobject, StoredObject.put_pointer⟩

/-- The contexts know of nothing that a step takes away. -/
theorem covers (heffect : Effect client world event holder) (hsound : world.Sound target) :
    ObjectStore.Covers (BeingWritten world.moves) (sharedObjects world.moves)
      (ObjectStore.step world.objects event) := by
  apply hsound.covers.effect
  · rintro pointer rfl
    cases heffect with
    | dropped holds => exact (hsound.held _ _ holds).2
  · rintro pointer index value rfl
    cases heffect with
    | wrote mine => exact ⟨client, _, mine, rfl⟩

/-- A step with an effect keeps to the discipline. -/
theorem makes (heffect : Effect client world event holder) (hsound : world.Sound target)
    (hstored : ObjectsAt target owner views (ObjectStore.step world.objects event) after)
    (hchecks : ∀ failed ∈ asserted after.log,
      failed ∈ asserted world.state.log ∨ failed ∈ argumentChecks) :
    (sharing target).Makes client (.stepped request world.state after) world
      (world.stepped client request after owner views event holder) where
  moves := rfl
  inv :=
    { stored := hstored
      checks := fun failed hfailed => (hchecks failed hfailed).elim (hsound.checks failed) id
      legal := hsound.legal
      covers := heffect.covers hsound
      held := fun _ _ hheld => heffect.held hsound hheld
      used := hsound.used
      races := hsound.races }
  rely := fun _ hother =>
    { pending := rfl
      holder := heffect.holder_iff hsound hother
      held := fun _ hobject hheld => heffect.keeps_held hsound hother hobject hheld
      used := fun _ hpending _ hplace =>
        ⟨ObjectStore.keepsAt_step (heffect.not_changes hsound hother hpending hplace), .refl⟩ }

end Effect

/-! ## Calls and returns -/

/-- Calls that are compatible do not use what the other one writes. -/
theorem ObjectCall.Compatible.not_races {pending : ObjectCall}
    (hcompatible : request.Compatible pending) :
    (∀ place ∈ request.written?, pending.place? ≠ some place) ∧
      ∀ place ∈ pending.written?, request.place? ≠ some place := by
  constructor
  · intro place hplace
    cases request with
    | pool call =>
        cases call with
        | write memPtr index value =>
            cases hplace
            exact hcompatible
        | _ => cases hplace
    | read memPtr index => cases hplace
  · intro place hplace heq
    cases request with
    | pool call =>
        cases call with
        | write memPtr index value =>
            cases heq
            exact hcompatible (ObjectCall.place_of_written hplace)
        | _ => cases heq
    | read memPtr index =>
        cases heq
        exact hcompatible hplace

omit [DecidableEq Client] in
/-- The place that a call uses is in an object. -/
theorem ObjectCall.Allowed.place {objects : List (StoredObject Nat)}
    (hallowed : request.Allowed target objects) {place : Nat × Nat}
    (hplace : place ∈ request.place?) :
    ∃ object ∈ objects, object.pointer = place.1 ∧ place.2 * target.word < object.size := by
  cases request with
  | pool call =>
      cases call with
      | write memPtr index value =>
          cases hplace
          exact hallowed
      | _ => cases hplace
  | read memPtr index =>
      cases hplace
      exact hallowed

variable (world) in
/-- What a call can tell of the objects: that one of them is given up, which nobody
uses. -/
inductive CallTells : ObjectCall → StoreEvent Nat → Prop
  | nothing {request : ObjectCall} : CallTells request .idle
  | dropped {memPtr : Nat}
      (known : memPtr ∈ (sharedObjects world.moves).map StoredObject.pointer)
      (unused : ∀ other, ∀ pending ∈ pendingCall world.moves other, ∀ place ∈ pending.place?,
        place.1 ≠ memPtr) : CallTells (.pool (.release memPtr)) (.dropped memPtr)

theorem callTells (hallowed : (objectClients target).allowed world.moves client request) :
    CallTells world request request.calledEvent := by
  obtain ⟨hcall, hcompatible⟩ := hallowed
  cases request with
  | pool call =>
      cases call with
      | release memPtr =>
          exact .dropped hcall fun other pending hpending => hcompatible other pending hpending
      | _ => exact .nothing
  | read memPtr index => exact .nothing

namespace CallTells

theorem not_changes (htells : CallTells world request event) {pending : ObjectCall}
    (hpending : pending ∈ pendingCall world.moves other) {place : Nat × Nat}
    (hplace : place ∈ pending.place?) : ¬ ObjectStore.Changes place.1 place.2 event := by
  cases htells with
  | nothing => exact id
  | dropped known unused => exact fun heq => unused other pending hpending place hplace heq.symm

theorem permits (htells : CallTells world request event) :
    ObjectStore.Permits (sharedObjects world.moves) event := by
  cases htells with
  | nothing => trivial
  | dropped known unused => exact List.mem_map.mp known

/-- Nothing is settled by a call. -/
theorem covers (htells : CallTells world request event) (hsound : world.Sound target)
    (hidle : pendingCall world.moves client = none) :
    ObjectStore.Covers (BeingWritten ((client, .called request) :: world.moves))
      (ObjectStore.step (sharedObjects world.moves) event) world.objects := by
  have hcovers : ObjectStore.Covers (BeingWritten ((client, .called request) :: world.moves))
      (sharedObjects world.moves) world.objects := by
    apply hsound.covers.mono
    rintro place ⟨other, pending, hpending, hwritten⟩
    have hother : other ≠ client := by
      rintro rfl
      rw [hidle] at hpending
      cases hpending
    exact ⟨other, pending, (pendingCall_of_ne hother).symm ▸ hpending, hwritten⟩
  cases htells with
  | nothing => exact hcovers
  | dropped known unused => exact hcovers.dropped

/-- What a context gives up is in its hands until it is released. -/
theorem held (htells : CallTells world request event) (hsound : world.Sound target)
    (hheld : handedOver client world.holder event data = some other) :
    data ∈ world.objects.map StoredObject.pointer ∧
      data ∉ (ObjectStore.step (sharedObjects world.moves) event).map StoredObject.pointer := by
  cases htells with
  | nothing => exact hsound.held _ _ hheld
  | @dropped memPtr known unused =>
      by_cases hsame : data = memPtr
      · subst hsame
        refine ⟨hsound.covers.mem_pointers known, fun hmem => ?_⟩
        obtain ⟨object, hobject, rfl⟩ := List.mem_map.mp hmem
        exact of_decide_eq_true (List.mem_filter.mp hobject).2 rfl
      · rw [handedOver, Function.update_of_ne hsame] at hheld
        obtain ⟨hmem, hnot⟩ := hsound.held _ _ hheld
        refine ⟨hmem, fun hkept => hnot ?_⟩
        obtain ⟨object, hobject, rfl⟩ := List.mem_map.mp hkept
        exact List.mem_map_of_mem (List.mem_filter.mp hobject).1

theorem holder_iff (htells : CallTells world request event) (hsound : world.Sound target)
    (hother : other ≠ client) :
    handedOver client world.holder event data = some other ↔ world.holder data = some other := by
  cases htells with
  | nothing => exact Iff.rfl
  | @dropped memPtr known unused =>
      by_cases hsame : data = memPtr
      · subst hsame
        rw [handedOver, Function.update_self]
        constructor
        · intro heq
          exact absurd (Option.some.inj heq).symm hother
        · exact fun hheld => absurd known (hsound.held _ _ hheld).2
      · rw [handedOver, Function.update_of_ne hsame]

/-- The places in use are in objects that nobody gave up. -/
theorem used (htells : CallTells world request event) (hsound : world.Sound target)
    (hallowed : request.Allowed target (sharedObjects world.moves)) {pending : ObjectCall}
    (hpending : pending ∈ pendingCall ((client, .called request) :: world.moves) other)
    {place : Nat × Nat} (hplace : place ∈ pending.place?) :
    ∃ object ∈ ObjectStore.step (sharedObjects world.moves) event,
      object.pointer = place.1 ∧ place.2 * target.word < object.size := by
  by_cases hother : other = client
  · subst hother
    rw [pendingCall_called] at hpending
    cases hpending
    cases htells with
    | nothing => exact hallowed.place hplace
    | dropped known unused => cases hplace
  · rw [pendingCall_of_ne hother] at hpending
    obtain ⟨object, hobject, hpointer, hinside⟩ := hsound.used other pending hpending place hplace
    obtain ⟨same, hsame, hsamePointer, hsize, -⟩ := ObjectStore.keepsAt_step
      (htells.not_changes hpending hplace) object hobject hpointer
    exact ⟨same, hsame, hsamePointer.trans hpointer, hsize.symm ▸ hinside⟩

end CallTells

/-- A call that is compatible with those pending races with none of them. -/
theorem ObjectWorld.Sound.races_called (hsound : world.Sound target)
    (hcompatible : ∀ other, ∀ pending ∈ pendingCall world.moves other, request.Compatible pending)
    {first second : Client} (hne : first ≠ second) {pending another : ObjectCall}
    (hpending : pending ∈ pendingCall ((client, .called request) :: world.moves) first)
    (hanother : another ∈ pendingCall ((client, .called request) :: world.moves) second) :
    ∀ place ∈ pending.written?, another.place? ≠ some place := by
  by_cases hfirst : first = client
  · subst hfirst
    rw [pendingCall_called] at hpending
    rw [pendingCall_of_ne (Ne.symm hne)] at hanother
    cases hpending
    exact (hcompatible second another hanother).not_races.1
  · rw [pendingCall_of_ne hfirst] at hpending
    by_cases hsecond : second = client
    · subst hsecond
      rw [pendingCall_called] at hanother
      cases hanother
      exact (hcompatible first pending hpending).not_races.2
    · rw [pendingCall_of_ne hsecond] at hanother
      exact hsound.races first second hne pending hpending another hanother

/-- A call keeps to the discipline, if it is allowed. -/
theorem ObjectWorld.Sound.called (hsound : world.Sound target)
    (hidle : pendingCall world.moves client = none)
    (hallowed : (objectClients target).allowed world.moves client request) :
    (sharing target).Makes client (.called request) world
      (world.told client (.called request) request.calledEvent) := by
  have htells := callTells hallowed
  refine ⟨rfl, ⟨hsound.stored, hsound.checks, ⟨htells.permits, hsound.legal⟩,
    htells.covers hsound hidle, fun _ _ hheld => htells.held hsound hheld,
    fun _ _ hpending _ hplace => htells.used hsound hallowed.1 hpending hplace,
    fun _ _ hne _ hpending _ hanother => hsound.races_called hallowed.2 hne hpending hanother⟩, ?_⟩
  exact fun other hother => ⟨pendingCall_of_ne hother, fun data => htells.holder_iff hsound hother,
    fun _ hobject _ => hobject, fun pending hpending place hplace => ⟨.refl,
      ObjectStore.keepsAt_step (htells.not_changes hpending hplace)⟩⟩

variable (client) (world) in
/-- What a return can tell of the objects. -/
inductive ReturnTells : ObjectCall → StoreEvent Nat → Prop
  | nothing {request : ObjectCall} (writes : request.written? = none) : ReturnTells request .idle
  | made {request : ObjectCall} {size data : Nat} (writes : request.written? = none)
      (holds : world.holder data = some client) (stored : .fresh size data ∈ world.objects) :
      ReturnTells request (.made size data)
  | wrote {memPtr index value : Nat} (stored : ∃ twin ∈ world.objects, twin.pointer = memPtr ∧
      twin.contents index = some value) :
      ReturnTells (.pool (.write memPtr index value)) (.wrote memPtr index value)
  | read {memPtr index value : Nat}
      (permits : ObjectStore.Permits (sharedObjects world.moves) (.read memPtr index value)) :
      ReturnTells (.read memPtr index) (.read memPtr index value)

omit [DecidableEq Client] in
theorem Answered.tells (hanswered : Answered client world request reply) :
    ReturnTells client world request (request.returnedEvent reply) := by
  have hallocation : ∀ {size data : Nat}, (data ≠ null →
      world.holder data = some client ∧ .fresh size data ∈ world.objects) →
      request.written? = none →
        ReturnTells client world request (if data = null then .idle else .made size data) := by
    intro size data hgiven hwrites
    split
    · exact .nothing hwrites
    · next hne => exact .made hwrites (hgiven hne).1 (hgiven hne).2
  cases request with
  | pool call =>
      cases call with
      | write memPtr index value => exact .wrote hanswered
      | allocate size =>
          obtain (⟨⟩ | ⟨data⟩ | ⟨⟩) | value := reply
          · exact .nothing rfl
          · exact hallocation hanswered rfl
          · exact .nothing rfl
          · exact .nothing rfl
      | allocateAuto size =>
          obtain (⟨⟩ | ⟨data⟩ | ⟨⟩) | value := reply
          · exact .nothing rfl
          · exact hallocation hanswered rfl
          · exact .nothing rfl
          · exact .nothing rfl
      | create numBlocks blockSize => exact .nothing rfl
      | release memPtr => exact .nothing rfl
      | heapAllocate size => exact .nothing rfl
  | read memPtr index =>
      cases reply with
      | pool reply => exact .nothing rfl
      | value value => exact .read hanswered

namespace ReturnTells

/-- Nothing is told that changes what others use. -/
theorem not_changes (htells : ReturnTells client world request event) (hsound : world.Sound target)
    (hmine : pendingCall world.moves client = some request) (hother : other ≠ client)
    {pending : ObjectCall} (hpending : pending ∈ pendingCall world.moves other)
    {place : Nat × Nat} (hplace : place ∈ pending.place?) :
    ¬ ObjectStore.Changes place.1 place.2 event := by
  cases htells with
  | nothing writes => exact id
  | made writes holds stored => exact id
  | wrote stored =>
      rintro ⟨rfl, rfl⟩
      exact hsound.races client other (Ne.symm hother) _ hmine pending hpending place rfl hplace
  | read permits => exact id

theorem permits (htells : ReturnTells client world request event) (hsound : world.Sound target)
    (hmine : pendingCall world.moves client = some request) :
    ObjectStore.Permits (sharedObjects world.moves) event := by
  cases htells with
  | nothing writes => trivial
  | made writes holds stored =>
      refine ⟨(hsound.stored.stored _ stored).positive, fun object hobject => ?_⟩
      -- The block was in hand, so no object that is known of is there.
      have hnew := (hsound.held _ _ holds).2
      obtain ⟨twin, htwin, hpointer, hsize, -⟩ := hsound.covers object hobject
      have hapart := hsound.stored.apart_of_ne htwin stored fun heq =>
        hnew (List.mem_map.mpr ⟨object, hobject, hpointer.symm.trans heq⟩)
      unfold StoredObject.Apart at hapart ⊢
      rwa [hpointer, hsize] at hapart
  | wrote stored =>
      obtain ⟨object, hobject, hpointer, -⟩ := hsound.used client _ hmine _ rfl
      exact ⟨object, hobject, hpointer⟩
  | read permits => exact permits

/-- What is still unsettled when a call has returned. -/
theorem unsettled (hmine : pendingCall world.moves client = some request) {place : Nat × Nat}
    (hunsettled : BeingWritten world.moves place) (hwritten : request.written? ≠ some place) :
    BeingWritten ((client, .returned request reply) :: world.moves) place := by
  obtain ⟨other, pending, hpending, hplace⟩ := hunsettled
  have hother : other ≠ client := by
    rintro rfl
    rw [hmine] at hpending
    cases hpending
    exact hwritten hplace
  exact ⟨other, pending, (pendingCall_of_ne hother).symm ▸ hpending, hplace⟩

theorem covers (htells : ReturnTells client world request event) (hsound : world.Sound target)
    (hmine : pendingCall world.moves client = some request) :
    ObjectStore.Covers (BeingWritten ((client, .returned request reply) :: world.moves))
      (ObjectStore.step (sharedObjects world.moves) event) world.objects := by
  have hmono : request.written? = none →
      ObjectStore.Covers (BeingWritten ((client, .returned request reply) :: world.moves))
        (sharedObjects world.moves) world.objects := by
    intro hwrites
    apply hsound.covers.mono
    exact fun place hplace => unsettled hmine hplace (by rw [hwrites]; exact nofun)
  cases htells with
  | nothing writes => exact hmono writes
  | made writes holds stored => exact (hmono writes).made stored
  | wrote stored =>
      apply hsound.covers.wrote hsound.stored.distinct stored
      intro place hplace
      by_contra hneither
      obtain ⟨hsettled, hne⟩ := not_or.mp hneither
      exact hsettled (unsettled hmine hplace fun heq => hne (Option.some.inj heq).symm)
  | read permits => exact hmono rfl

/-- What a context is told of is in its hands no more. -/
theorem held (htells : ReturnTells client world request event) (hsound : world.Sound target)
    (hheld : handedOver client world.holder event data = some other) :
    data ∈ world.objects.map StoredObject.pointer ∧
      data ∉ (ObjectStore.step (sharedObjects world.moves) event).map StoredObject.pointer := by
  cases htells with
  | nothing writes => exact hsound.held _ _ hheld
  | @made request size new writes holds stored =>
      have hne : data ≠ new := by
        rintro rfl
        rw [handedOver, Function.update_self] at hheld
        cases hheld
      rw [handedOver, Function.update_of_ne hne] at hheld
      obtain ⟨hmem, hnot⟩ := hsound.held _ _ hheld
      exact ⟨hmem, List.not_mem_cons_of_ne_of_not_mem hne hnot⟩
  | wrote stored =>
      obtain ⟨hmem, hnot⟩ := hsound.held _ _ hheld
      refine ⟨hmem, fun hknown => hnot ?_⟩
      obtain ⟨changed, hchanged, rfl⟩ := List.mem_map.mp hknown
      obtain ⟨object, hobject, rfl⟩ := List.mem_map.mp hchanged
      rw [StoredObject.put_pointer]
      exact List.mem_map_of_mem hobject
  | read permits => exact hsound.held _ _ hheld

omit [DecidableEq Client] in
theorem holder_iff (htells : ReturnTells client world request event) (hother : other ≠ client) :
    handedOver client world.holder event data = some other ↔ world.holder data = some other := by
  cases htells with
  | nothing writes => exact Iff.rfl
  | @made request size new writes holds stored =>
      by_cases hsame : data = new
      · subst hsame
        rw [handedOver, Function.update_self, holds]
        constructor
        · exact fun heq => by cases heq
        · intro heq
          exact absurd (Option.some.inj heq).symm hother
      · rw [handedOver, Function.update_of_ne hsame]
  | wrote stored => exact Iff.rfl
  | read permits => exact Iff.rfl

/-- A return keeps to the discipline. -/
theorem makes (htells : ReturnTells client world request (request.returnedEvent reply))
    (hsound : world.Sound target) (hmine : pendingCall world.moves client = some request) :
    (sharing target).Makes client (.returned request reply) world
      (world.told client (.returned request reply) (request.returnedEvent reply)) := by
  have hpendings : ∀ {other : Client} {pending : ObjectCall},
      pending ∈ pendingCall ((client, .returned request reply) :: world.moves) other →
        other ≠ client ∧ pending ∈ pendingCall world.moves other := by
    intro other pending hpending
    have hother : other ≠ client := by
      rintro rfl
      rw [pendingCall_returned] at hpending
      cases hpending
    rw [pendingCall_of_ne hother] at hpending
    exact ⟨hother, hpending⟩
  refine ⟨rfl, ⟨hsound.stored, hsound.checks, ⟨htells.permits hsound hmine, hsound.legal⟩,
    htells.covers hsound hmine, fun _ _ hheld => htells.held hsound hheld, ?_, ?_⟩, ?_⟩
  · intro other pending hpending place hplace
    obtain ⟨hother, hpending⟩ := hpendings hpending
    obtain ⟨object, hobject, hpointer, hinside⟩ := hsound.used other pending hpending place hplace
    obtain ⟨same, hsame, hsamePointer, hsize, -⟩ := ObjectStore.keepsAt_step
      (htells.not_changes hsound hmine hother hpending hplace) object hobject hpointer
    exact ⟨same, hsame, hsamePointer.trans hpointer, hsize.symm ▸ hinside⟩
  · intro first second hne pending hpending another hanother
    exact hsound.races first second hne pending (hpendings hpending).2 another
      (hpendings hanother).2
  · exact fun other hother => ⟨pendingCall_of_ne hother, fun data => htells.holder_iff hother,
      fun _ hobject _ => hobject, fun pending hpending place hplace => ⟨.refl,
        ObjectStore.keepsAt_step (htells.not_changes hsound hmine hother hpending hplace)⟩⟩

end ReturnTells

end MicroTbx

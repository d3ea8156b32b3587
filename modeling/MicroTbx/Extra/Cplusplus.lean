import MicroTbx.Foundation.Sections
import MicroTbx.MemPool.Objects
import MicroTbx.MemPool.Peak

/-! # The operators of C++

With the file for C++ in a program, its `new` and `delete` use the memory pools.
As exceptions are not used, a request for memory that cannot be met ends the
program. A program that keeps to the objects it made uses a store of objects,
whatever its parts in C do with the pools beside it.
-/

namespace MicroTbx

open Program

/-- Why a C++ program cannot continue. -/
inductive CxxFault
  | library (reason : Fault)
  /-- `std::abort` was called. -/
  | abort
  deriving DecidableEq

abbrev CxxCode := Program State CxxFault

/-- A call of a function in C. -/
def callC {Result : Type} (code : Code Result) : CxxCode Result :=
  code.lift id (fun _ memory => memory) .library

section Operators

variable (target : Target)

def operatorNew (size : Nat) : CxxCode Nat := do
  let result ← callC (tbxMemPoolAllocateAuto target size)
  if result = null then .fault .abort else return result

def operatorDelete (mem : Nat) : CxxCode Unit :=
  if mem ≠ null then callC (tbxMemPoolRelease target mem) else return ()

/-- The pools know the size of the block. -/
def operatorDeleteSized (mem _size : Nat) : CxxCode Unit := operatorDelete target mem

def operatorNewArray (size : Nat) : CxxCode Nat := operatorNew target size

def operatorDeleteArray (mem : Nat) : CxxCode Unit := operatorDelete target mem

def operatorDeleteArraySized (mem _size : Nat) : CxxCode Unit := operatorDelete target mem

end Operators

/-! ## Programs -/

/-- What a C++ program does with its memory. -/
inductive CxxCall
  | new (size : Nat)
  | newArray (size : Nat)
  | delete (mem : Nat)
  | deleteSized (mem size : Nat)
  | deleteArray (mem : Nat)
  | deleteArraySized (mem size : Nat)
  | store (mem index value : Nat)
  | load (mem index : Nat)
  /-- A part of the program in C uses the pools itself. -/
  | c (call : PoolCall)

inductive CxxReply
  | pointer (result : Nat)
  | value (result : Nat)
  | none
  | c (reply : PoolReply)
  deriving DecidableEq

abbrev CxxExchange := Exchange State CxxCall CxxReply

namespace CxxCall

variable (target : Target)

def perform : CxxCall → CxxCode CxxReply
  | .new size => do
      let result ← operatorNew target size
      return .pointer result
  | .newArray size => do
      let result ← operatorNewArray target size
      return .pointer result
  | .delete mem => do
      operatorDelete target mem
      return .none
  | .deleteSized mem size => do
      operatorDeleteSized target mem size
      return .none
  | .deleteArray mem => do
      operatorDeleteArray target mem
      return .none
  | .deleteArraySized mem size => do
      operatorDeleteArraySized target mem size
      return .none
  | .store mem index value => do
      callC (MicroTbx.store target mem index value)
      return .none
  | .load mem index => do
      let result ← callC (MicroTbx.load target mem index)
      return .value result
  | .c call => do
      let reply ← callC (call.perform target)
      return .c reply

/-- The bytes that the call makes an object of. -/
def size? : CxxCall → Option Nat
  | .new size | .newArray size => some size
  | _ => none

/-- The pointer that the call deletes. -/
def deleted? : CxxCall → Option Nat
  | .delete mem | .deleteSized mem _ | .deleteArray mem | .deleteArraySized mem _ => some mem
  | _ => none

/-- A program deletes what it made or `nullptr`, and reads and writes inside its
objects. Its parts in C leave its objects alone. -/
def Allowed (objects : List (StoredObject Nat)) (state : State) : CxxCall → Prop
  | .new size | .newArray size => size < 2 ^ target.sizeBits
  | .delete mem | .deleteSized mem _ | .deleteArray mem | .deleteArraySized mem _ =>
      mem = null ∨ mem ∈ objects.map StoredObject.pointer
  | .store mem index _ | .load mem index =>
      ∃ object ∈ objects, object.pointer = mem ∧ index * target.word < object.size
  | .c call => call.Allowed target state ∧ call.Spares (objects.map StoredObject.pointer)

instance (objects : List (StoredObject Nat)) (state : State) (call : CxxCall) :
    Decidable (call.Allowed target objects state) :=
  match call with
  | .new _ | .newArray _ => inferInstanceAs (Decidable (_ < _))
  | .delete _ | .deleteSized _ _ | .deleteArray _ | .deleteArraySized _ _ =>
      inferInstanceAs (Decidable (_ ∨ _))
  | .store _ _ _ | .load _ _ => inferInstanceAs (Decidable (∃ object ∈ objects, _))
  | .c _ => inferInstanceAs (Decidable (_ ∧ _))

/-- A condition on the sizes that a call may ask for. -/
def BlockSize (condition : Nat → Prop) : CxxCall → Prop
  | .new size | .newArray size => condition size
  | .c call => call.BlockSize condition
  | _ => True

instance (condition : Nat → Prop) [DecidablePred condition] (call : CxxCall) :
    Decidable (call.BlockSize condition) :=
  match call with
  | .new size | .newArray size => inferInstanceAs (Decidable (condition size))
  | .c call => inferInstanceAs (Decidable (call.BlockSize condition))
  | .delete _ | .deleteSized _ _ | .deleteArray _ | .deleteArraySized _ _ | .store _ _ _
  | .load _ _ => inferInstanceAs (Decidable True)

end CxxCall

/-- What a call means for the store of objects. -/
def CxxExchange.event (exchange : CxxExchange) : StoreEvent Nat :=
  match exchange.request, exchange.result with
  | .new size, .pointer mem | .newArray size, .pointer mem => .made size mem
  | .delete mem, _ | .deleteSized mem _, _ | .deleteArray mem, _ | .deleteArraySized mem _, _ =>
      if mem = null then .idle else .dropped mem
  | .store mem index value, _ => .wrote mem index value
  | .load mem index, .value value => .read mem index value
  | _, _ => .idle

def storeEvents (history : List CxxExchange) : List (StoreEvent Nat) :=
  history.map CxxExchange.event

/-- The objects of a program. -/
def liveObjects (history : List CxxExchange) : List (StoredObject Nat) :=
  ObjectStore.objects (storeEvents history)

def cxxInterface (target : Target) : Interface State CxxFault CxxCall CxxReply where
  initial := .initial
  allowed := fun history state call => call.Allowed target (liveObjects history) state
  perform := CxxCall.perform target

instance (target : Target) (history : List CxxExchange) (state : State) (call : CxxCall) :
    Decidable ((cxxInterface target).allowed history state call) :=
  inferInstanceAs (Decidable (call.Allowed target (liveObjects history) state))

/-- A request for memory that is not met ends the program. -/
def Aborts (target : Target) (state : State) (call : CxxCall) : Prop :=
  call.size?.isSome ∧ ∃ after, (call.perform target).run 0 state = .faulted .abort after

/-- What a program may rely on in the state that a run ends in. -/
structure StoreImplemented (target : Target) (history : List CxxExchange) (state : State) :
    Prop where
  legal : ObjectStore.Legal (storeEvents history)
  readBack : ∀ later between earlier pointer index value written,
    storeEvents history = later ++ .read pointer index value ::
      (between ++ .wrote pointer index written :: earlier) →
    (∀ event ∈ between, ¬ ObjectStore.Changes pointer index event) → value = written
  placed : ∀ object ∈ liveObjects history, InHeap target state object
  apart : (liveObjects history).Pairwise StoredObject.Apart
  checks : ∀ failed ∈ asserted state.log, failed ∈ argumentChecks
  /-- A call is answered, or it asks for memory and ends the program. -/
  answers : ∀ call, (cxxInterface target).allowed history state call →
    call.BlockSize target.Sound →
    (∃ reply after, (call.perform target).run 0 state = .done reply 0 after) ∨
      Aborts target state call

variable {target : Target} {owner larger : Ownership} {views others : List PoolView}
  {state after : State} {call : CxxCall} {reply : CxxReply} {history : List CxxExchange}
  {objects : List (StoredObject Nat)} {size mem index value depth : Nat}

/-! ## Calls of functions in C -/

theorem wp_callC {Result : Type} {code : Code Result} {post : Result → Nat → State → Prop} :
    (callC code).wp post depth state ↔ code.wp post depth state := by
  unfold callC
  induction code generalizing depth state with
  | ret result => exact Iff.rfl
  | fault reason => exact Iff.rfl
  | step act next ih => exact ih state
  | enter next ih => exact ih
  | leave next ih =>
      cases depth with
      | zero => exact Iff.rfl
      | succ depth => exact ih

theorem returns_callC {Result : Type} {code : Code Result} {spec : Result → State → Prop}
    (hreturns : code.Returns state spec) : (callC code).Returns state spec :=
  fun depth => wp_callC.mpr (hreturns depth)

/-! ## One call -/

variable (target) (owner) (views) (state) in
/-- Everything one call can do to a state that holds pools. -/
inductive CxxStep : CxxCall → CxxReply → Ownership → List PoolView → State → Prop
  | made {call : CxxCall} {size mem : Nat} {larger : Ownership} {others : List PoolView}
      {after : State} (asks : call.size? = some size) (ne_null : mem ≠ null)
      (requests : 0 < size → Requests target size state mem after)
      (step : PoolStep target owner views state (.allocateAuto size) (.pointer mem) larger others
        after) : CxxStep call (.pointer mem) larger others after
  | nothing {call : CxxCall} (deletes : call.deleted? = some null) :
      CxxStep call .none owner views state
  | dropped {call : CxxCall} {mem : Nat} {larger : Ownership} {others : List PoolView}
      {after : State} (deletes : call.deleted? = some mem) (ne_null : mem ≠ null)
      (step : PoolStep target owner views state (.release mem) .none larger others after) :
      CxxStep call .none larger others after
  | store {mem index value : Nat} :
      CxxStep (.store mem index value) .none owner views
        (state.store (target.field mem index) value)
  | load {mem index : Nat} :
      CxxStep (.load mem index) (.value (state.mem (target.field mem index))) owner views state
  | c {call : PoolCall} {reply : PoolReply} {larger : Ownership} {others : List PoolView}
      {after : State} (step : PoolStep target owner views state call reply larger others after) :
      CxxStep (.c call) (.c reply) larger others after

theorem PoolsAt.allocateAuto_step (hpools : PoolsAt target owner views state)
    (hsize : size < 2 ^ target.sizeBits) (hsound : target.Sound size) :
    (tbxMemPoolAllocateAuto target size).Returns state fun data after =>
      (0 < size → Requests target size state data after) ∧ ∃ larger others,
        PoolStep target owner views state (.allocateAuto size) (.pointer data) larger others
          after := by
  have hallowed : PoolCall.Allowed target state (.allocateAuto size) := hsize
  intro depth
  obtain ⟨reply, after, hrun, hstep⟩ := (hpools.step hallowed hsound).run depth
  obtain ⟨data, final, middle, hallocates, hreturns⟩ := done_bind hrun
  cases hreturns
  refine (wp_iff_run _).mpr ⟨data, _, _, hallocates, rfl, fun hpositive => ?_, hstep⟩
  exact ((hpools.allocateAuto_requests hpositive hsound).of_run hallocates).2

/-- Memory for an object is found, or the program ends. -/
theorem PoolsAt.operatorNew (hpools : PoolsAt target owner views state)
    (hsize : size < 2 ^ target.sizeBits) (hsound : target.Sound size) :
    ∃ data after larger others,
      PoolStep target owner views state (.allocateAuto size) (.pointer data) larger others after ∧
      (0 < size → Requests target size state data after) ∧
      (operatorNew target size).run 0 state =
        if data = null then .faulted .abort after else .done data 0 after := by
  obtain ⟨data, after, hrun, hrequests, larger, others, hstep⟩ :=
    (returns_callC (hpools.allocateAuto_step hsize hsound)).run 0
  refine ⟨data, after, larger, others, hstep, hrequests, ?_⟩
  rw [MicroTbx.operatorNew, run_bind, hrun, Outcome.andThen]
  split <;> rfl

namespace ObjectsAt

/-- An object is made, or the program ends. -/
theorem new (hpools : PoolsAt target owner views state) (hsize : size < 2 ^ target.sizeBits)
    (hsound : target.Sound size) (hasks : call.size? = some size)
    (hperform : call.perform target = do
      let result ← operatorNew target size
      return .pointer result) :
    (∃ reply after larger others, (call.perform target).run 0 state = .done reply 0 after ∧
      CxxStep target owner views state call reply larger others after) ∨
        Aborts target state call := by
  obtain ⟨data, after, larger, others, hstep, hrequests, hrun⟩ := hpools.operatorNew hsize hsound
  by_cases hdata : data = null
  · rw [if_pos hdata] at hrun
    refine .inr ⟨hasks ▸ rfl, after, ?_⟩
    rw [hperform, run_bind, hrun]
    rfl
  · rw [if_neg hdata] at hrun
    refine .inl ⟨.pointer data, after, larger, others, ?_, .made hasks hdata hrequests hstep⟩
    rw [hperform, run_bind, hrun]
    rfl

theorem delete (hobjects : ObjectsAt target owner views objects state)
    (hmem : mem = null ∨ mem ∈ objects.map StoredObject.pointer) (hdeletes : call.deleted? = some mem)
    (hperform : call.perform target = do
      operatorDelete target mem
      return .none) :
    ∃ reply after larger others, (call.perform target).run 0 state = .done reply 0 after ∧
      CxxStep target owner views state call reply larger others after := by
  by_cases hnull : mem = null
  · subst hnull
    refine ⟨.none, state, owner, views, ?_, .nothing hdeletes⟩
    rw [hperform, operatorDelete, if_neg (not_not.mpr rfl)]
    rfl
  · obtain ⟨object, hobject, hpointer⟩ := List.mem_map.mp (hmem.resolve_left hnull)
    have hhanded := hobjects.out object hobject
    rw [hpointer] at hhanded
    obtain ⟨front, view, back, node, spare, block, rfl, hused, hout, rfl⟩ :=
      hobjects.pools.of_handedOut hhanded
    obtain ⟨_, _, hrun, rfl, rfl⟩ := (returns_callC (hobjects.pools.release hused hout)).run 0
    refine ⟨.none, _, owner, _, ?_, .dropped hdeletes hnull (.release rfl hused hout)⟩
    rw [hperform, operatorDelete, if_pos hnull, run_bind, hrun]
    rfl

/-- Every allowed call is answered, unless it ends the program for want of
memory. -/
theorem cxx (hobjects : ObjectsAt target owner views objects state)
    (hallowed : call.Allowed target objects state) (hsound : call.BlockSize target.Sound) :
    (∃ reply after larger others, (call.perform target).run 0 state = .done reply 0 after ∧
      CxxStep target owner views state call reply larger others after) ∨
        Aborts target state call := by
  cases call with
  | new size => exact new hobjects.pools hallowed hsound rfl rfl
  | newArray size => exact new hobjects.pools hallowed hsound rfl rfl
  | delete mem => exact .inl (hobjects.delete hallowed rfl rfl)
  | deleteSized mem size => exact .inl (hobjects.delete hallowed rfl rfl)
  | deleteArray mem => exact .inl (hobjects.delete hallowed rfl rfl)
  | deleteArraySized mem size => exact .inl (hobjects.delete hallowed rfl rfl)
  | store mem index value =>
      obtain ⟨object, hobject, rfl, hindex⟩ := hallowed
      refine .inl ⟨.none, _, owner, views, ?_, .store⟩
      have hne := (hobjects.inHeap hobject).ne_null
      rw [CxxCall.perform, MicroTbx.store, if_neg hne]
      rfl
  | load mem index =>
      obtain ⟨object, hobject, rfl, hindex⟩ := hallowed
      refine .inl ⟨_, _, owner, views, ?_, .load⟩
      have hne := (hobjects.inHeap hobject).ne_null
      rw [CxxCall.perform, MicroTbx.load, if_neg hne]
      rfl
  | c pool =>
      obtain ⟨reply, after, hrun, larger, others, hstep⟩ :=
        (returns_callC (hobjects.pools.step hallowed.1 hsound)).run 0
      refine .inl ⟨.c reply, after, larger, others, ?_, .c hstep⟩
      rw [CxxCall.perform, run_bind, hrun]
      rfl

end ObjectsAt

/-! ## What a call means -/

theorem event_made {before : State} (hasks : call.size? = some size) :
    CxxExchange.event ⟨call, .pointer mem, before, after⟩ = .made size mem := by
  cases call with
  | new asked =>
      cases hasks
      rfl
  | newArray asked =>
      cases hasks
      rfl
  | _ => cases hasks

theorem event_deleted {before : State} (hdeletes : call.deleted? = some mem) :
    CxxExchange.event ⟨call, .none, before, after⟩ = if mem = null then .idle else .dropped mem := by
  cases call with
  | new asked => cases hdeletes
  | newArray asked => cases hdeletes
  | store mem index value => cases hdeletes
  | load mem index => cases hdeletes
  | c pool => cases hdeletes
  | _ =>
      cases hdeletes
      rfl

/-- What a program deletes is one of its objects. -/
theorem CxxCall.Allowed.mem_of_deleted (hallowed : call.Allowed target objects state)
    (hdeletes : call.deleted? = some mem) (hmem : mem ≠ null) :
    mem ∈ objects.map StoredObject.pointer := by
  cases call with
  | new asked => cases hdeletes
  | newArray asked => cases hdeletes
  | store mem index value => cases hdeletes
  | load mem index => cases hdeletes
  | c pool => cases hdeletes
  | _ =>
      cases hdeletes
      exact hallowed.resolve_left hmem

/-- The objects in the pools go along with the store. -/
theorem ObjectsAt.cxxStep (hobjects : ObjectsAt target owner views objects state)
    (hallowed : call.Allowed target objects state)
    (hstep : CxxStep target owner views state call reply larger others after) :
    ObjectsAt target larger others
        (ObjectStore.step objects (CxxExchange.event ⟨call, reply, state, after⟩)) after ∧
      ObjectStore.Permits objects (CxxExchange.event ⟨call, reply, state, after⟩) ∧
      ∀ failed ∈ asserted after.log, failed ∈ asserted state.log ∨ failed ∈ argumentChecks := by
  cases hstep with
  | made asks ne_null requests step =>
      rw [event_made asks]
      have hmade := hobjects.made step trivial ne_null (step.stored hobjects.pools (.inr rfl) ne_null)
      have hfresh := (List.nodup_cons.mp hmade.distinct).1
      have hpositive := (hmade.stored _ List.mem_cons_self).positive
      refine ⟨hmade, ⟨hpositive, fun object hobject => ?_⟩, step.checks hobjects.pools⟩
      apply hmade.apart_of_ne (List.mem_cons_of_mem _ hobject) List.mem_cons_self
      exact fun heq => hfresh (heq ▸ List.mem_map_of_mem hobject)
  | nothing deletes =>
      rw [event_deleted deletes, if_pos rfl]
      exact ⟨hobjects, trivial, fun _ => .inl⟩
  | @dropped call mem larger others after deletes ne_null step =>
      rw [event_deleted deletes, if_neg ne_null]
      refine ⟨hobjects.dropped step, ?_, step.checks hobjects.pools⟩
      exact List.mem_map.mp (hallowed.mem_of_deleted deletes ne_null)
  | store =>
      obtain ⟨object, hobject, rfl, hindex⟩ := hallowed
      exact ⟨hobjects.wrote hobject hindex, ⟨object, hobject, rfl⟩, fun _ => .inl⟩
  | load =>
      obtain ⟨object, hobject, rfl, hindex⟩ := hallowed
      refine ⟨hobjects, ⟨object, hobject, rfl, fun known hknown => ?_⟩, fun _ => .inl⟩
      exact ((hobjects.stored object hobject).contents _ known hknown).2
  | c step => exact ⟨hobjects.poolStep step hallowed.2, trivial, step.checks hobjects.pools⟩

/-! ## Every run -/

/-- The pools hold the objects of a program along every run. -/
theorem ObjectsAt.of_run (hrun : (cxxInterface target).Run history state)
    (hsound : ∀ exchange ∈ history, exchange.request.BlockSize target.Sound) :
    ∃ owner views, ObjectsAt target owner views (liveObjects history) state ∧
      ObjectStore.Legal (storeEvents history) ∧
      ∀ failed ∈ asserted state.log, failed ∈ argumentChecks := by
  induction hrun with
  | start => exact ⟨_, _, .initial, trivial, by simp [cxxInterface, State.initial]⟩
  | @step history before after call reply prior isAllowed returned ih =>
      obtain ⟨hcall, hearlier⟩ := List.forall_mem_cons.mp hsound
      obtain ⟨owner, views, hobjects, hlegal, hchecks⟩ := ih hearlier
      rcases hobjects.cxx isAllowed hcall with ⟨_, _, larger, others, hdone, hstep⟩ | haborts
      · cases hdone.symm.trans returned
        obtain ⟨hafter, hpermits, hfailed⟩ := hobjects.cxxStep isAllowed hstep
        refine ⟨larger, others, hafter, ⟨hpermits, hlegal⟩, fun failed hmem => ?_⟩
        exact (hfailed failed hmem).elim (hchecks failed) id
      · obtain ⟨-, _, hfaulted⟩ := haborts
        cases hfaulted.symm.trans returned

/-- The operators implement a store of objects in every run of every program. -/
theorem cxx_objects_stored (hrun : (cxxInterface target).Run history state)
    (hsound : ∀ exchange ∈ history, exchange.request.BlockSize target.Sound) :
    StoreImplemented target history state := by
  obtain ⟨owner, views, hobjects, hlegal, hchecks⟩ := ObjectsAt.of_run hrun hsound
  refine ⟨hlegal, ?_, fun object hobject => hobjects.inHeap hobject, hlegal.apart, hchecks, ?_⟩
  · intro later between earlier pointer index value written hevents hbetween
    rw [hevents] at hlegal
    exact hlegal.of_append.read_back hbetween
  · intro call hallowed hcall
    rcases hobjects.cxx hallowed hcall with ⟨reply, after, -, -, hdone, -⟩ | haborts
    · exact .inl ⟨reply, after, hdone⟩
    · exact .inr haborts

/-- Two objects, one of them written, deleted and made anew, and a pool in C. -/
def objectCalls : List CxxCall :=
  [.load 4320 1, .newArray 20, .deleteSized 4368 20, .load 4368 1, .store 4320 1 6, .store 4368 1 5,
    .newArray 20, .delete null, .new 20, .c (.create 1 64)]

theorem cxx_objects_stored_reused : ∃ history state, (cxxInterface linux64).Run history state ∧
    history.map Exchange.request = objectCalls ∧ StoreImplemented linux64 history state := by
  have hexecutes : ((cxxInterface linux64).execute objectCalls).isSome = true := by decide +kernel
  obtain ⟨history, state, hrun, hrequests⟩ := Interface.execute_isSome hexecutes
  have hsound : ∀ request ∈ history.map Exchange.request, request.BlockSize linux64.Sound := by
    rw [hrequests]
    decide
  exact ⟨history, state, hrun, hrequests,
    cxx_objects_stored hrun (List.forall_mem_map.mp hsound)⟩

end MicroTbx

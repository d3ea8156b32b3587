import MicroTbx.CritSect.Atomicity
import MicroTbx.Preemptive.Objects

/-! # Sharing objects on one CPU

Contexts on one CPU, main program, handlers or tasks, make objects and hand them
to each other, preempted wherever interrupts are enabled. If no two of them use
a place at a time of which one writes it, they share a store of objects.
-/

namespace MicroTbx

open Program

variable {Client : Type} [DecidableEq Client] {target : Target} {client other : Client}
  {world next : ObjectWorld Client} {moves : ObjectMoves Client} {request : ObjectCall}
  {reply : ObjectReply} {size numBlocks data memPtr index value : Nat}

/-! ## What a context knows -/

theorem pending_stable : (sharing target).Stable client
    fun world => pendingCall world.moves client = some request := by
  intro world next hpending _ _ _ hrely
  rw [hrely.pending]
  exact hpending

/-- What an allocation gives its caller. -/
def GivenObject (client : Client) (size data : Nat) (world : ObjectWorld Client) : Prop :=
  data ≠ null → world.holder data = some client ∧ .fresh size data ∈ world.objects

theorem given_stable : (sharing target).Stable client (GivenObject client size data) := by
  intro world next hgiven _ _ _ hrely hne
  obtain ⟨hholder, hstored⟩ := hgiven hne
  exact ⟨(hrely.holder data).mpr hholder, hrely.held _ hstored hholder⟩

/-- A context knows two things that it knows each. -/
theorem sharing_stable_and {first second : ObjectWorld Client → Prop}
    (hfirst : (sharing target).Stable client first)
    (hsecond : (sharing target).Stable client second) :
    (sharing target).Stable client fun world => first world ∧ second world :=
  fun world next hboth hworld hnext hmeets hrely =>
    ⟨hfirst world next hboth.1 hworld hnext hmeets hrely,
      hsecond world next hboth.2 hworld hnext hmeets hrely⟩

/-- What a context knows of its answer is true until it returns. -/
theorem answered_stable : (sharing target).Stable client fun world =>
    pendingCall world.moves client = some request ∧ Answered client world request reply := by
  rintro world next ⟨hpending, hanswered⟩ hworld hnext hmeets hrely
  refine ⟨hrely.pending.trans hpending, ?_⟩
  cases request with
  | pool call =>
      cases call with
      | write memPtr index value =>
          obtain ⟨twin, htwin, hpointer, hcontents⟩ := hanswered
          obtain ⟨same, hsame, hsamePointer, -, hsameContents⟩ :=
            (hrely.used _ hpending _ rfl).1 twin htwin hpointer
          exact ⟨same, hsame, hsamePointer.trans hpointer, hsameContents.trans hcontents⟩
      | allocate size =>
          obtain (⟨⟩ | ⟨data⟩ | ⟨⟩) | result := reply
          · trivial
          · exact given_stable world next hanswered hworld hnext hmeets hrely
          · trivial
          · trivial
      | allocateAuto size =>
          obtain (⟨⟩ | ⟨data⟩ | ⟨⟩) | result := reply
          · trivial
          · exact given_stable world next hanswered hworld hnext hmeets hrely
          · trivial
          · trivial
      | create numBlocks size => trivial
      | release memPtr => trivial
      | heapAllocate size => trivial
  | read memPtr index =>
      cases reply with
      | pool reply => trivial
      | value result =>
          obtain ⟨known, hknown, hpointer, hcontents⟩ := hanswered
          obtain ⟨same, hsame, hsamePointer, -, hsameContents⟩ :=
            (hrely.used _ hpending _ rfl).2 known hknown hpointer
          refine ⟨same, hsame, hsamePointer.trans hpointer, ?_⟩
          rw [hsameContents]
          exact hcontents

/-! ## Steps of calls -/

/-- A call that is one step, by its effect on the store. -/
theorem shares_effect {Value : Type} {program : Code Value} {assertion : ObjectWorld Client → Prop}
    {post : Value → ObjectWorld Client → Prop} (hatomic : program.Atomic)
    (hstable : (sharing target).Stable client assertion) (hworld : assertion world)
    (hpost : ∀ result, (sharing target).Stable client (post result))
    (hreturns : ∀ world, assertion world → world.Sound target →
      program.Returns world.state fun result after => ∃ owner views event holder,
        Effect client world event holder ∧
        ObjectsAt target owner views (ObjectStore.step world.objects event) after ∧
        (∀ failed ∈ asserted after.log,
          failed ∈ asserted world.state.log ∨ failed ∈ argumentChecks) ∧
        post result (world.stepped client request after owner views event holder)) :
    (sharing target).Follows client request post program world := by
  apply Discipline.Follows.atomic hatomic hstable hworld hpost
  intro world hholds hsound
  apply (hreturns world hholds hsound).mono
  rintro result after ⟨owner, views, event, holder, heffect, hstored, hchecks, hresult⟩ -
  exact ⟨_, rfl, heffect.makes hsound hstored hchecks, hresult⟩

/-- A check of an argument. -/
theorem shares_assert {site : Site} {condition : Bool} (hsite : (site, .parameter) ∈ argumentChecks)
    (hworld : pendingCall world.moves client = some request) :
    (sharing target).Follows client request
      (fun _ world => pendingCall world.moves client = some request)
      (tbxAssert site .parameter condition) world := by
  unfold tbxAssert
  split
  · exact .ret pending_stable hworld
  · apply shares_effect (Atomic.modify _) pending_stable hworld fun _ => pending_stable
    intro world hpending hsound depth
    refine ⟨rfl, world.owner, world.views, _, _, .none, ?_, ?_, hpending⟩
    · exact ⟨hsound.stored.pools.emit_assertion _ _, hsound.stored.stored, hsound.stored.out,
        hsound.stored.distinct⟩
    · intro failed hfailed
      rcases List.mem_cons.mp hfailed with rfl | hearlier
      · exact .inr hsite
      · exact .inl hearlier

/-- The pools take a step that is none to the objects. -/
theorem ObjectWorld.Sound.quiet {call : PoolCall} {answer : PoolReply} {larger : Ownership}
    {others : List PoolView} {after : State} (hsound : world.Sound target)
    (hstep : PoolStep target world.owner world.views world.state call answer larger others after)
    (hspares : call.Spares (world.objects.map StoredObject.pointer)) :
    ObjectsAt target larger others (ObjectStore.step world.objects .idle) after ∧
      ∀ failed ∈ asserted after.log, failed ∈ asserted world.state.log ∨ failed ∈ argumentChecks :=
  ⟨hsound.stored.poolStep hstep hspares, hstep.checks hsound.stored.pools⟩

theorem shares_create (hsound : target.Sound size)
    (hworld : pendingCall world.moves client = some request) :
    (sharing target).Follows client request
      (fun _ world => pendingCall world.moves client = some request)
      (tbxMemPoolCreate target numBlocks size) world := by
  by_cases hvalid : 0 < numBlocks ∧ 0 < size
  · apply shares_effect (tbxMemPoolCreate_atomic hvalid.1 hvalid.2) pending_stable hworld
      fun _ => pending_stable
    intro world hpending hworld
    apply (hworld.stored.pools.create hvalid.1 hvalid.2 hsound).mono
    rintro status after ⟨larger, others, hcreates⟩
    obtain ⟨hstored, hchecks⟩ := hworld.quiet (.create hvalid.1 hvalid.2 hcreates) trivial
    exact ⟨larger, others, _, _, .none, hstored, hchecks, hpending⟩
  · unfold tbxMemPoolCreate
    rw [if_neg hvalid]
    apply (shares_assert (by decide) hworld).bind
    rintro _ world hpending
    apply (shares_assert (by decide) hpending).bind
    exact fun _ world hpending => .ret pending_stable hpending

theorem shares_heapAllocate (hworld : pendingCall world.moves client = some request) :
    (sharing target).Follows client request
      (fun _ world => pendingCall world.moves client = some request)
      (tbxHeapAllocate target size) world := by
  rcases Nat.eq_zero_or_pos size with rfl | hsize
  · unfold tbxHeapAllocate
    apply (shares_assert (by decide) hworld).bind
    exact fun _ world hpending => .ret pending_stable hpending
  · apply shares_effect (tbxHeapAllocate_atomic hsize) pending_stable hworld fun _ => pending_stable
    intro world hpending hworld
    apply (hworld.stored.pools.heapAllocate size).mono
    rintro result after ⟨hgrown, hroom, hfailed⟩
    obtain ⟨hstored, hchecks⟩ := hworld.quiet (.heapAllocate hgrown hroom hfailed) trivial
    exact ⟨_, _, _, _, .none, hstored, hchecks, hpending⟩

theorem shares_allocate (hworld : pendingCall world.moves client = some request) :
    (sharing target).Follows client request
      (fun data world => pendingCall world.moves client = some request ∧
        GivenObject client size data world) (tbxMemPoolAllocate target size) world := by
  rcases Nat.eq_zero_or_pos size with rfl | hsize
  · unfold tbxMemPoolAllocate
    apply (shares_assert (by decide) hworld).bind
    exact fun _ world hpending => .ret (sharing_stable_and pending_stable given_stable)
      ⟨hpending, fun hne => absurd rfl hne⟩
  · apply shares_effect (tbxMemPoolAllocate_atomic hsize) pending_stable hworld
      fun _ => sharing_stable_and pending_stable given_stable
    intro world hpending hworld
    have hpools := hworld.stored.pools
    apply (hpools.allocate hsize).mono
    rintro data after (⟨-, others, htakes⟩ | ⟨hrefused, rfl, rfl⟩)
    · have hne := htakes.ne_null hpools
      have hstep : PoolStep target world.owner world.views world.state (.allocate size)
          (.pointer data) world.owner others after := .allocate hsize htakes
      have hmade := hworld.stored.made hstep trivial hne (hstep.stored hpools (.inl rfl) hne)
      refine ⟨_, _, _, _, .made (List.nodup_cons.mp hmade.distinct).1, hmade, hstep.checks hpools,
        hpending, fun _ => ⟨Function.update_self .., List.mem_cons_self⟩⟩
    · exact ⟨_, _, _, _, .none, hworld.stored, fun _ => .inl, hpending, fun hne => absurd rfl hne⟩

/-- The section that looks for a pool changes nothing. -/
theorem PoolsAt.findPool {owner : Ownership} {views : List PoolView} {state : State}
    (hpools : PoolsAt target owner views state) :
    (MicroTbx.findPool target size).Returns state fun _ after => after = state := by
  intro depth
  simp only [MicroTbx.findPool, wp_bind_eq, wp_enterCritical, wp_read, hpools.findLoop.wp_iff]
  exact wp_leaveCritical.mpr ⟨rfl, rfl⟩

theorem shares_createThenAllocate (hsound : target.Sound size)
    (hworld : pendingCall world.moves client = some request) :
    (sharing target).Follows client request
      (fun data world => pendingCall world.moves client = some request ∧
        GivenObject client size data world) (do
      let created ← tbxMemPoolCreate target 1 size
      if created = .ok then tbxMemPoolAllocate target size else pure null) world := by
  apply (shares_create hsound hworld).bind
  rintro created world hpending
  split
  · exact shares_allocate hpending
  · exact .ret (sharing_stable_and pending_stable given_stable)
      ⟨hpending, fun hne => absurd rfl hne⟩

theorem shares_allocateAuto (hsound : target.Sound size)
    (hworld : pendingCall world.moves client = some request) :
    (sharing target).Follows client request
      (fun data world => pendingCall world.moves client = some request ∧
        GivenObject client size data world) (tbxMemPoolAllocateAuto target size) world := by
  rcases Nat.eq_zero_or_pos size with rfl | hsize
  · unfold tbxMemPoolAllocateAuto
    apply (shares_assert (by decide) hworld).bind
    exact fun _ world hpending => .ret (sharing_stable_and pending_stable given_stable)
      ⟨hpending, fun hne => absurd rfl hne⟩
  have hfind : (sharing target).Follows client request
      (fun _ world => pendingCall world.moves client = some request)
      (findPool target size) world := by
    apply shares_effect findPool_atomic pending_stable hworld fun _ => pending_stable
    intro world hpending hworld
    apply hworld.stored.pools.findPool.mono
    rintro _ _ rfl
    exact ⟨_, _, _, _, .none, hworld.stored, fun _ => .inl, hpending⟩
  rw [tbxMemPoolAllocateAuto_eq hsize]
  apply hfind.bind
  rintro poolNodePtr world hpending
  split
  · exact shares_createThenAllocate hsound hpending
  · apply (shares_allocate hpending).bind
    rintro data world ⟨hpending, hgiven⟩
    split
    · exact shares_createThenAllocate hsound hpending
    · exact .ret (sharing_stable_and pending_stable given_stable) ⟨hpending, hgiven⟩

/-- A block in hand is released, and the object is gone. -/
theorem shares_release (hne : memPtr ≠ null)
    (hworld : pendingCall world.moves client = some request ∧ world.holder memPtr = some client) :
    (sharing target).Follows client request
      (fun _ world => pendingCall world.moves client = some request)
      (tbxMemPoolRelease target memPtr) world := by
  have hheld : (sharing target).Stable client fun world => world.holder memPtr = some client :=
    fun world next hholder _ _ _ hrely => (hrely.holder memPtr).mpr hholder
  apply shares_effect (tbxMemPoolRelease_atomic hne) (sharing_stable_and pending_stable hheld)
    hworld fun _ => pending_stable
  rintro world ⟨hpending, hholder⟩ hsound
  have hpools := hsound.stored.pools
  obtain ⟨object, hobject, rfl⟩ := List.mem_map.mp (hsound.held _ _ hholder).1
  have hout := hsound.stored.out object hobject
  generalize object.pointer = released at hholder hout
  obtain ⟨front, view, back, node, spare, block, hsplit, hused, hblock, rfl⟩ :=
    hpools.of_handedOut hout
  have hstep : PoolStep target world.owner world.views world.state
      (.release (target.field block 1)) .none world.owner _ _ := .release hsplit hused hblock
  rw [hsplit] at hpools
  apply (hpools.release hused hblock).mono
  rintro _ _ ⟨rfl, rfl⟩
  exact ⟨_, _, _, _, .dropped hholder, hsound.stored.dropped hstep,
    hstep.checks hsound.stored.pools, hpending⟩

/-! ## Accesses -/

/-- The object that a context writes. -/
theorem ObjectWorld.Sound.exists_object (hsound : world.Sound target)
    (hpending : pendingCall world.moves client = some request)
    (hplace : request.place? = some (memPtr, index)) :
    ∃ object ∈ world.objects, object.pointer = memPtr ∧ index * target.word < object.size := by
  obtain ⟨known, hknown, hpointer, hinside⟩ := hsound.used client _ hpending _ hplace
  obtain ⟨twin, htwin, htwinPointer, hsize, -⟩ := hsound.covers known hknown
  exact ⟨twin, htwin, htwinPointer.trans hpointer, hsize.symm ▸ hinside⟩

/-- A write, as it is or in a section. -/
theorem shares_write {program : Code Unit} (hatomic : program.Atomic)
    (hprogram : ∀ {state : State} {spec : Unit → State → Prop},
      (modify (·.store (target.field memPtr index) value) : Code Unit).Returns state spec →
        program.Returns state spec)
    (hworld : pendingCall world.moves client = some (.pool (.write memPtr index value))) :
    (sharing target).Follows client (.pool (.write memPtr index value))
      (fun _ world => pendingCall world.moves client = some (.pool (.write memPtr index value)) ∧
        Answered client world (.pool (.write memPtr index value)) (.pool .none))
      program world := by
  apply shares_effect hatomic pending_stable hworld fun _ => answered_stable
  intro world hpending hsound
  apply hprogram
  intro depth
  obtain ⟨object, hobject, rfl, hinside⟩ := hsound.exists_object hpending rfl
  refine ⟨rfl, _, _, _, _, .wrote hpending, hsound.stored.wrote hobject hinside, fun _ => .inl,
    hpending, _, List.mem_map_of_mem hobject, StoredObject.put_pointer, ?_⟩
  exact StoredObject.put_contents_self rfl

/-- A read, as it is or in a section. -/
theorem shares_read {program : Code Nat} (hatomic : program.Atomic)
    (hprogram : ∀ {state : State} {spec : Nat → State → Prop},
      (load target memPtr index).Returns state spec → program.Returns state spec)
    (hne : memPtr ≠ null)
    (hworld : pendingCall world.moves client = some (.read memPtr index)) :
    (sharing target).Follows client (.read memPtr index)
      (fun result world => pendingCall world.moves client = some (.read memPtr index) ∧
        Answered client world (.read memPtr index) (.value result))
      program world := by
  apply shares_effect hatomic pending_stable hworld fun _ => answered_stable
  intro world hpending hsound
  apply hprogram
  intro depth
  rw [load, if_neg hne]
  refine ⟨rfl, _, _, _, _, .none, hsound.stored, fun _ => .inl, hpending, ?_⟩
  obtain ⟨object, hobject, rfl, hinside⟩ := hsound.used client _ hpending _ rfl
  refine ⟨object, hobject, rfl, fun known hcontents => ?_⟩
  obtain ⟨twin, htwin, hpointer, -, hknown⟩ := hsound.covers object hobject
  rcases hknown index known hcontents with hsettled | ⟨other, pending, hwriting, hwritten⟩
  · rw [← hpointer]
    exact ((hsound.stored.stored twin htwin).contents index known hsettled).2
  · -- Nobody writes a place while a context reads it.
    by_cases hother : other = client
    · subst hother
      rw [hpending] at hwriting
      cases hwriting
      cases hwritten
    · exact absurd rfl (hsound.races other client hother pending hwriting _ hpending _ hwritten)

/-! ## Calls -/

/-- An allowed call that has been recorded keeps to the discipline. -/
theorem ObjectCall.follows (hallowed : request.Allowed target (sharedObjects moves))
    (hne : ∀ object ∈ sharedObjects moves, object.pointer ≠ null)
    (hworld : pendingCall world.moves client = some request)
    (hreleased : ∀ memPtr, request = .pool (.release memPtr) → world.holder memPtr = some client) :
    (sharing target).Follows client request ((sharing target).done client request)
      (request.perform target) world := by
  have hdone : ∀ reply, (sharing target).Stable client ((sharing target).done client request reply) :=
    fun _ => answered_stable
  have hpool : ∀ {call : PoolCall}, request = .pool call →
      (sharing target).Follows client request
        (fun reply => (sharing target).done client request (.pool reply)) (call.perform target) world →
      (sharing target).Follows client request ((sharing target).done client request)
        (ObjectCall.perform target (.pool call)) world :=
    fun _ hcall => hcall.map hdone fun _ _ hpost => hpost
  cases request with
  | pool call =>
      apply hpool rfl
      cases call with
      | create numBlocks size =>
          exact (shares_create hallowed.2.2 hworld).map (fun _ => hdone _)
            fun _ _ hpending => ⟨hpending, trivial⟩
      | allocate size =>
          exact (shares_allocate hworld).map (fun _ => hdone _) fun _ _ hpost => hpost
      | allocateAuto size =>
          exact (shares_allocateAuto hallowed.2 hworld).map (fun _ => hdone _) fun _ _ hpost => hpost
      | release memPtr =>
          obtain ⟨object, hobject, rfl⟩ := List.mem_map.mp hallowed
          exact (shares_release (hne object hobject) ⟨hworld, hreleased _ rfl⟩).map
            (fun _ => hdone _) fun _ _ hpending => ⟨hpending, trivial⟩
      | heapAllocate size =>
          exact (shares_heapAllocate hworld).map (fun _ => hdone _)
            fun _ _ hpending => ⟨hpending, trivial⟩
      | write memPtr index value =>
          exact (shares_write (Atomic.modify _) id hworld).map (fun _ => hdone _) fun _ _ hpost => hpost
  | read memPtr index =>
      obtain ⟨object, hobject, rfl, -⟩ := hallowed
      have hatomic : (load target object.pointer index).Atomic := by
        rw [load, if_neg (hne object hobject)]
        exact fun state => ⟨_, rfl⟩
      exact (shares_read hatomic id (hne object hobject) hworld).map hdone fun _ _ hpost => hpost

/-- Objects that the contexts know of are in the heap. -/
theorem ObjectWorld.Sound.ne_null (hsound : world.Sound target) :
    ∀ object ∈ sharedObjects world.moves, object.pointer ≠ null := by
  intro object hobject
  obtain ⟨twin, htwin, hpointer, -⟩ := hsound.covers object hobject
  rw [← hpointer]
  exact (hsound.stored.inHeap htwin).ne_null

theorem sharing_sound : (sharing target).Sound
    (objectClients target : Clients Client State Fault ObjectCall ObjectReply) where
  suffix := fun _ _ _ => trivial
  idle := fun client world next hidle _ _ _ hrely => hrely.pending.trans hidle
  call := by
    rintro client request world hsound hidle hallowed -
    refine ⟨world.told client (.called request) request.calledEvent, rfl,
      hsound.called hidle hallowed, ?_⟩
    apply ObjectCall.follows hallowed.1 hsound.ne_null pendingCall_called
    rintro memPtr rfl
    exact Function.update_self ..
  finish := by
    rintro client request reply world hsound ⟨hpending, hanswered⟩ -
    exact ⟨world.told client (.returned request reply) (request.returnedEvent reply), rfl,
      hanswered.tells.makes hsound hpending, pendingCall_returned⟩

/-- What a context may ask for depends on the calls and returns only. -/
theorem objectClients_allowed (hallowed : (objectClients target).allowed (visible moves) client request) :
    (objectClients target).allowed moves client request := by
  obtain ⟨hcall, hcompatible⟩ := hallowed
  rw [pendingCall_visible] at hcompatible
  rw [sharedObjects, objectEvents_visible] at hcall
  exact ⟨hcall, hcompatible⟩

/-! ## On a CPU -/

variable {SR : Type} {cpu : Cpu SR}

/-- What the calls and returns of contexts show of the objects, and what memory
holds of them while no context is inside of a section. -/
structure KeepsObjects (target : Target) (moves : ObjectMoves Client) (shared : State)
    (outside : Prop) : Prop where
  legal : ObjectStore.Legal (objectEvents moves)
  apart : (sharedObjects moves).Pairwise StoredObject.Apart
  /-- A context reads what any of them wrote last. -/
  readBack : ∀ later between earlier pointer index value written,
    objectEvents moves = later ++ .read pointer index value ::
      (between ++ .wrote pointer index written :: earlier) →
    (∀ event ∈ between, ¬ ObjectStore.Changes pointer index event) → value = written
  placed : outside → (∀ client, pendingCall moves client = none) →
    ∀ object ∈ sharedObjects moves, InHeap target shared object
  checks : outside → ∀ failed ∈ asserted shared.log, failed ∈ argumentChecks

/-- What contexts can rely on when they share objects. -/
structure SharesObjects (target : Target) (config : ProcessorConfig Client State
    (CritSect Unit SR SR) SR Fault ObjectCall ObjectReply) : Prop
    extends KeepsObjects target config.moves config.shared config.OutsideSections where
  faultless : config.Faultless

/-- While no call is made, memory holds what the contexts know. -/
theorem ObjectWorld.Sound.inHeap (hsound : world.Sound target)
    (hidle : ∀ client, pendingCall world.moves client = none) {object : StoredObject Nat}
    (hobject : object ∈ sharedObjects world.moves) : InHeap target world.state object := by
  obtain ⟨twin, htwin, hpointer, hsize, hcontents⟩ := hsound.covers object hobject
  obtain ⟨hne, haligned, habove, hbelow, hmem⟩ := hsound.stored.inHeap htwin
  rw [hpointer] at hne haligned habove hbelow hmem
  refine ⟨hne, haligned, habove, hsize ▸ hbelow, fun index value hvalue => hmem index value ?_⟩
  refine (hcontents index value hvalue).resolve_right ?_
  rintro ⟨client, pending, hpending, -⟩
  rw [hidle client] at hpending
  cases hpending

/-- The store that has come about is the one that the contexts know of. -/
theorem ObjectWorld.Sound.keeps (hsound : world.Sound target) (hmoves : visible world.moves = moves)
    {shared : State} {outside : Prop} (hshared : outside → world.state = shared) :
    KeepsObjects target moves shared outside := by
  subst hmoves
  have hevents : objectEvents (visible world.moves) = objectEvents world.moves :=
    objectEvents_visible
  have hobjects : sharedObjects (visible world.moves) = sharedObjects world.moves :=
    congrArg ObjectStore.objects hevents
  refine ⟨hevents ▸ hsound.legal, hobjects ▸ hsound.legal.apart, ?_, ?_, ?_⟩
  · intro later between earlier pointer index value written heq hbetween
    have hlegal := hsound.legal
    rw [← hevents, heq] at hlegal
    exact hlegal.of_append.read_back hbetween
  · intro houtside hidle object hobject
    rw [pendingCall_visible] at hidle
    rw [hobjects] at hobject
    rw [← hshared houtside]
    exact hsound.inHeap hidle hobject
  · intro houtside
    rw [← hshared houtside]
    exact hsound.checks

/-- Nothing is stored at program start. -/
theorem ObjectWorld.initial_sound :
    (⟨.initial, [], fun _ => none, [], [], fun _ => none⟩ : ObjectWorld Client).Sound target where
  stored := .initial
  checks := fun _ hfailed => by cases hfailed
  legal := trivial
  covers := fun _ hobject => by cases hobject
  held := fun _ _ hheld => by cases hheld
  used := fun _ _ hpending => by cases hpending
  races := fun _ _ _ _ hpending => by cases hpending

theorem ObjectCall.balanced (target : Target) (call : ObjectCall) :
    (call.perform target).Balanced 0 := by
  cases call with
  | pool call => exact (call.balanced target).part fun _ => rfl
  | read memPtr index => exact balanced_load.part fun _ => rfl

/-- From program start, contexts that are preempted anywhere share a store of
objects as long as they do not race for its places. -/
theorem objects_shared_on_cpu {status cpuSR : SR} {first : Client} {statuses : Client → SR}
    {config : ProcessorConfig Client State (CritSect Unit SR SR) SR Fault ObjectCall ObjectReply}
    (hreachable : cpu.processor.Reachable (objectClients target)
      (cpu.processor.start .initial (.initial status cpuSR) first statuses) config) :
    SharesObjects target config := by
  obtain ⟨seen, hseen, hsimulates⟩ := Processor.Simulates.reachable SingleCore.processor_excludes
    (ObjectCall.balanced target) (fun _ _ _ => objectClients_allowed) ⟨rfl, rfl, rfl⟩ hreachable
  obtain ⟨world, hagrees⟩ :=
    sharing_sound.reachable ObjectWorld.initial_sound rfl (fun _ => rfl) hseen trivial
  have hsound : world.Sound target := hagrees.inv
  have hkeeps : KeepsObjects target config.moves config.shared config.OutsideSections :=
    hsound.keeps ((congrArg visible hagrees.moves).trans hsimulates.moves)
      fun houtside => hagrees.state.trans (hsimulates.shared_eq houtside)
  exact ⟨hkeeps, hsimulates.faultless hagrees.live⟩

/-- A handler cuts in while the main program allocates, and leaves an object
behind, which the main program reads and releases. -/
def objectHandedOver : List (ProcessorChoice Bool ObjectCall (BitVec 32)) :=
  [.call (.pool (.allocateAuto 8)), .advance, .advance, .turn true 0,
    .call (.pool (.allocateAuto 8))] ++ List.replicate 191 .advance ++
    [.finish, .call (.pool (.write 4176 0 7)), .advance, .finish, .turn false 0] ++
    List.replicate 136 .advance ++ [.finish, .call (.read 4176 0), .advance, .finish,
    .call (.pool (.release 4176))] ++ List.replicate 32 .advance ++ [.finish]

theorem objects_shared_on_cpu_handedOver : ∃ config,
    cortexM.processor.Reachable (objectClients linux64)
      (cortexM.processor.start .initial (.initial 0 0) false fun _ => 0) config ∧
    config.moves.length = 10 ∧ (sharedObjects config.moves).map StoredObject.pointer = [4208] ∧
    SharesObjects linux64 config := by
  have hschedule : (cortexM.processor.schedule (objectClients linux64)
      (cortexM.processor.start .initial (.initial 0 0) false fun _ => 0) objectHandedOver).map
        (fun config => decide (config.moves.length = 10 ∧
          (sharedObjects config.moves).map StoredObject.pointer = [4208])) = some true := by
    decide +kernel
  obtain ⟨config, hconfig, hmoves⟩ := Option.map_eq_some_iff.mp hschedule
  obtain ⟨hlength, hobjects⟩ := of_decide_eq_true hmoves
  have hreachable := Processor.steps_of_schedule hconfig
  exact ⟨config, hreachable, hlength, hobjects, objects_shared_on_cpu hreachable⟩

end MicroTbx

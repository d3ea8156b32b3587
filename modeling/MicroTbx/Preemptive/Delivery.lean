import MicroTbx.CritSect.Atomicity
import MicroTbx.Preemptive.Fifo

/-! # Delivery on one CPU

Producers and a consumer share a list on one CPU. Their calls are preempted
anywhere that interrupts are enabled, also in the midst of entering a section.
What the consumer is told is judged by the calls and returns alone: an item is
delivered once, and before every item whose insertion was called only after its
own had returned.
-/

namespace MicroTbx

variable {Client : Type} {target : Target} {list : Nat} {consumer : Client}
  {moves earlier : ListMoves Client}

/-! ## Accounts of what is visible -/

/-- Calls and returns tell all of the account but what was linked and removed. -/
theorem account_visible : account target list (visible moves) =
    { account target list moves with linked := [], removed := 0 } := by
  induction moves with
  | nil => rfl
  | cons move moves ih =>
      obtain ⟨client, request | ⟨request, before, after⟩ | ⟨request, result⟩⟩ := move
      · change tallied target list (account target list (visible moves)) client (.called request) = _
        rw [ih]
        simp only [account, tallied]
        split <;> rfl
      · change account target list (visible moves) = _
        rw [ih]
        simp only [account, tallied]
        split
        · rfl
        · split <;> rfl
      · change tallied target list (account target list (visible moves)) client
          (.returned request result) = _
        rw [ih]
        simp only [account, tallied]
        split
        · rfl
        · rfl
        · split <;> rfl
        · rfl

/-- Items are linked behind those that are linked already. -/
theorem linked_prefix (later : ListMoves Client) :
    (account target list earlier).linked <+: (account target list (later ++ earlier)).linked := by
  induction later with
  | nil => exact List.prefix_rfl
  | cons move later ih =>
      apply ih.trans
      obtain ⟨client, request | ⟨request, before, after⟩ | ⟨request, result⟩⟩ := move
      · simp only [List.cons_append, account, tallied]
        split <;> exact List.prefix_rfl
      · simp only [List.cons_append, account, tallied]
        split
        · exact List.prefix_rfl
        · split
          · exact List.prefix_append _ _
          · exact List.prefix_rfl
      · simp only [List.cons_append, account, tallied]
        split
        · exact List.prefix_rfl
        · exact List.prefix_rfl
        · split <;> exact List.prefix_rfl
        · exact List.prefix_rfl

/-- An item that is found early in a list has found those before it early, too. -/
theorem pair_sublist_of_prefix {Item : Type} {item other : Item} {early all : List Item}
    (hstarts : early <+: all) (hnodup : all.Nodup) (hpair : [other, item].Sublist all)
    (hitem : item ∈ early) : [other, item].Sublist early := by
  obtain ⟨late, rfl⟩ := hstarts
  obtain ⟨front, back, hsplit, hfront, hback⟩ := List.sublist_append_iff.mp hpair
  have hlate : item ∉ late := fun hmem => (List.nodup_append.mp hnodup).2.2 item hitem item hmem rfl
  rcases front with _ | ⟨first, _ | ⟨second, front⟩⟩
  · rw [List.nil_append] at hsplit
    exact absurd (hback.subset (hsplit ▸ by simp)) hlate
  · cases hsplit
    exact absurd (hback.subset (by simp)) hlate
  · obtain ⟨rfl, rfl, rfl, rfl⟩ : other = first ∧ item = second ∧ front = [] ∧ back = [] := by
      simpa using hsplit
    exact hfront

/-! ## The guarantee -/

/-- What producers and the consumer can tell: what was delivered was offered and
not refused, and is delivered once, behind whatever had been accepted before it
was offered. -/
structure Delivers (target : Target) (list : Nat) (moves : ListMoves Client) : Prop where
  once : (account target list moves).obtained.Nodup
  offered : ∀ item ∈ (account target list moves).obtained,
    item ∈ (account target list moves).offered.map Prod.snd ∧
      item ∉ (account target list moves).rejected
  inOrder : ∀ later client request earlier item other,
    moves = later ++ (client, .called request) :: earlier → request.appends = some item →
      other ∈ (account target list earlier).accepted →
        item ∈ (account target list moves).obtained →
          [other, item].Sublist (account target list moves).obtained

/-- What was accepted was delivered, or is in the list. -/
def NoneLost (target : Target) (list : Nat) (moves : ListMoves Client) (state : State) : Prop :=
  ∃ owner views lists app, ListsAt target owner views lists app state ∧
    ∃ view ∈ lists, view.header = list ∧ ∀ item ∈ (account target list moves).accepted,
      item ∈ (account target list moves).obtained ∨ item ∈ view.items target state

variable [DecidableEq Client]

omit [DecidableEq Client] in
/-- What was linked and removed has no influence on what may be called. -/
theorem FifoCall.of_visible {tally : QueueTally Client Nat} {client : Client} {request : ListCall}
    (hcall : FifoCall list consumer { tally with linked := [], removed := 0 } client request) :
    FifoCall list consumer tally client request := by
  unfold FifoCall at hcall ⊢
  split at hcall
  · exact hcall
  · exact hcall
  · exact hcall
  · exact hcall.elim

omit [DecidableEq Client] in
/-- A producer offers what was not offered before. -/
theorem FifoCall.fresh {tally : QueueTally Client Nat} {client : Client} {request : ListCall}
    {item : Nat} (hcall : FifoCall list consumer tally client request)
    (happends : request.appends = some item) : item ∉ tally.offered.map Prod.snd := by
  unfold ListCall.appends at happends
  split at happends
  · cases happends
    exact hcall.2.2.2
  · cases happends

/-- What is visible of a run with sections as steps. -/
theorem delivers_of_agrees {start : State}
    {seen : ClientConfig Client State Fault ListCall ListReply}
    (hreachable : (fifoClients target list consumer).Reachable start seen)
    (hagrees : ∀ config, (fifoClients target list consumer).Reachable start config →
      ∃ world, (fifo target list consumer).Agrees config world) :
    Delivers target list (visible seen.moves) ∧
      NoneLost target list (visible seen.moves) seen.shared := by
  have htallies : ∀ config, (fifoClients target list consumer).Reachable start config →
      ∃ items, (account target list config.moves).Sound items := by
    intro config hconfig
    obtain ⟨world, hworld⟩ := hagrees config hconfig
    obtain ⟨-, view, -, -, hsound⟩ := hworld.inv
    rw [show account target list config.moves = account target list world.moves by
      rw [← hworld.moves]; rfl]
    exact ⟨_, hsound⟩
  obtain ⟨world, hworld⟩ := hagrees seen hreachable
  obtain ⟨hshared, view, hview, hheader, hsound⟩ := hworld.inv
  rw [show account target list world.moves = account target list seen.moves by
    rw [← hworld.moves]; rfl] at hsound
  constructor
  · constructor
    · rw [account_visible]
      exact hsound.obtained_prefix.sublist.nodup hsound.linked_nodup
    · rw [account_visible]
      intro item hitem
      have hlinked := hsound.obtained_prefix.subset hitem
      exact ⟨hsound.linked_offered item hlinked,
        fun hrejected => hsound.rejected_not_linked item hrejected hlinked⟩
    · intro later client request earlier item other hmoves happends haccepted hitem
      obtain ⟨rest, before, hseen, rfl⟩ := visible_eq_append hmoves
      obtain ⟨config, hconfig, rfl, hallowed⟩ := hreachable.allowed hseen
      obtain ⟨waiting, hearlier⟩ := htallies config hconfig
      rw [account_visible] at haccepted hitem ⊢
      -- The item was not linked when its insertion was called, the other one was.
      have hother := hearlier.accepted_linked other haccepted
      have hnew : item ∉ (account target list config.moves).linked :=
        fun hlinked => hallowed.fresh happends (hearlier.linked_offered item hlinked)
      obtain ⟨behind, hbehind⟩ : (account target list config.moves).linked <+:
          (account target list seen.moves).linked := by
        rw [hseen, List.append_cons]
        exact linked_prefix _
      have hlinked := hsound.obtained_prefix.subset hitem
      rw [← hbehind] at hlinked
      have hpair : [other, item].Sublist (account target list seen.moves).linked := by
        rw [← hbehind]
        exact (List.singleton_sublist.mpr hother).append
          (List.singleton_sublist.mpr ((List.mem_append.mp hlinked).resolve_left hnew))
      exact pair_sublist_of_prefix hsound.obtained_prefix hsound.linked_nodup hpair hitem
  · rw [← hworld.state]
    refine ⟨_, _, _, _, hshared.memory, view, hview, hheader, fun item haccepted => ?_⟩
    rw [account_visible] at haccepted ⊢
    have hlinked := hsound.accepted_linked item haccepted
    rw [← List.take_append_drop (account target list seen.moves).removed
      (account target list seen.moves).linked, ← hsound.waiting] at hlinked
    refine (List.mem_append.mp hlinked).imp_left fun htaken => ?_
    obtain ⟨ahead, hahead⟩ := hsound.obtained_prefix
    rw [← hahead, List.take_append_of_le_length hsound.removed_le] at htaken
    exact List.mem_of_mem_take htaken

variable {SR : Type} {cpu : Cpu SR}

/-- Producers and a consumer that are preempted anywhere, by handlers or by each
other: whatever the consumer is given was offered, reaches it once and in the
order of insertions that follow each other, no accepted item is lost, and
nothing runs into a fault. -/
theorem fifo_delivers_on_cpu {history : List ListExchange} {state : State}
    (hrun : (listInterface target).Run history state)
    (hsound : ∀ exchange ∈ history, exchange.request.BlockSize target.Sound)
    (hlist : list ∈ liveLists history)
    (hempty : state.mem (target.field list TbxList.nodeCount) = 0)
    {status cpuSR : SR} {first : Client} {statuses : Client → SR}
    {config : ProcessorConfig Client State (CritSect Unit SR SR) SR Fault ListCall ListReply}
    (hreachable : cpu.processor.Reachable (fifoClients target list consumer)
      (cpu.processor.start state (.initial status cpuSR) first statuses) config) :
    Delivers target list config.moves ∧ config.Faultless ∧
      (config.OutsideSections → NoneLost target list config.moves config.shared) := by
  have hvisible : ∀ moves client request,
      (fifoClients target list consumer).allowed (visible moves) client request →
        (fifoClients target list consumer).allowed moves client request := by
    intro moves client request hallowed
    dsimp only [fifoClients] at hallowed
    rw [account_visible] at hallowed
    exact hallowed.of_visible
  obtain ⟨seen, hseen, hsimulates⟩ := Processor.Simulates.reachable SingleCore.processor_excludes
    (ListCall.balanced target) hvisible ⟨rfl, rfl, rfl⟩ hreachable
  have hagrees : ∀ config, (fifoClients target list consumer).Reachable state config →
      ∃ world, (fifo target list consumer).Agrees config world :=
    fun _ hconfig => fifo_agrees hrun hsound hlist hempty hconfig
  obtain ⟨hdelivers, hnone⟩ := delivers_of_agrees hseen hagrees
  rw [hsimulates.moves] at hdelivers hnone
  obtain ⟨world, hworld⟩ := hagrees seen hseen
  exact ⟨hdelivers, hsimulates.faultless hworld.live,
    fun houtside => hsimulates.shared_eq houtside ▸ hnone⟩

/-- A producer is preempted while it enters its first section, by a handler that
inserts an item of its own. The consumer takes both. -/
def preemptedInsertion : List (ProcessorChoice Nat ListCall (BitVec 32)) :=
  [.call (.on 4224 (.insertItemBack 5)), .advance, .advance, .turn 2 0,
    .call (.on 4224 (.insertItemBack 7))] ++ List.replicate 61 .advance ++ [.finish, .turn 1 0] ++
    List.replicate 151 .advance ++ [.finish, .turn 0 0, .call (.on 4224 .getFirstItem)] ++
    List.replicate 21 .advance ++ [.finish, .call (.on 4224 (.removeItem 7))] ++
    List.replicate 87 .advance ++ [.finish, .call (.on 4224 .getFirstItem)] ++
    List.replicate 21 .advance ++ [.finish]

theorem fifo_delivers_on_cpu_preempted : ∃ history state config,
    (listInterface linux64).Run history state ∧
      cortexM.processor.Reachable (fifoClients linux64 4224 (0 : Nat))
        (cortexM.processor.start state (.initial 0 0) 1 fun _ => 0) config ∧
      (account linux64 4224 config.moves).obtained = [7, 5] ∧
      Delivers linux64 4224 config.moves ∧ config.Faultless ∧
      (config.OutsideSections → NoneLost linux64 4224 config.moves config.shared) := by
  have hexecutes : ((listInterface linux64).execute [.create]).map (fun outcome =>
      decide (4224 ∈ liveLists outcome.1 ∧
        outcome.2.mem (linux64.field 4224 TbxList.nodeCount) = 0) &&
      (cortexM.processor.schedule (fifoClients linux64 4224 (0 : Nat))
        (cortexM.processor.start outcome.2 (.initial 0 0) 1 fun _ => 0)
        preemptedInsertion).any fun config =>
          decide ((account linux64 4224 config.moves).obtained = [7, 5])) = some true := by
    decide +kernel
  obtain ⟨history, state, hrun, hrequests, hchecks⟩ := Interface.execute_map hexecutes
  obtain ⟨hstart, hschedule⟩ := Bool.and_eq_true_iff.mp hchecks
  obtain ⟨hlist, hempty⟩ := of_decide_eq_true hstart
  obtain ⟨config, hconfig, hobtained⟩ := (Option.any_eq_true _ _).mp hschedule
  have hreachable := Processor.steps_of_schedule hconfig
  have hsound : ∀ request ∈ history.map Exchange.request, request.BlockSize linux64.Sound := by
    rw [hrequests]
    decide
  exact ⟨history, state, config, hrun, hreachable, of_decide_eq_true hobtained,
    fifo_delivers_on_cpu hrun (List.forall_mem_map.mp hsound) hlist hempty hreachable⟩

end MicroTbx

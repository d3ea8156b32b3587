import MicroTbx.Preemptive.Stages
import MicroTbx.List.Refinement

/-! # Searches and changes, under preemption

Two contexts each insert an item next to another one or remove one, in the same
list. The search, the sections of the allocation and the change are apart, so
that a context can change the list at a node that is no longer the right one.
As long as that does not happen, and no context takes the block that the other
one has just made, the calls end as if made one after the other.
-/

namespace MicroTbx

open Program

section Definitions

variable (target : Target) (list : Nat) (calls : Bool → LocatingCall)

/-- Each context makes its call once. -/
def locatingClients : Clients Bool State Fault ListCall ListReply where
  allowed := fun moves context request =>
    request = .on list (calls context).operation ∧ context ∉ moves.map Prod.fst
  perform := ListCall.perform target

/-- The call that a request is, if it searches a list before it changes it. -/
def ListCall.locating : ListCall → Option (Nat × LocatingCall)
  | .on handle (.insertItemBefore item itemRef) => some (handle, .insertItemBefore item itemRef)
  | .on handle (.insertItemAfter item itemRef) => some (handle, .insertItemAfter item itemRef)
  | .on handle (.removeItem item) => some (handle, .removeItem item)
  | _ => none

theorem ListCall.locating_eq_some_iff {request : ListCall} {call : LocatingCall} :
    request.locating = some (list, call) ↔ request = .on list call.operation := by
  constructor
  · intro hlocating
    unfold locating at hlocating
    split at hlocating <;> cases hlocating <;> rfl
  · rintro rfl
    cases call <;> rfl

instance (moves : ListMoves Bool) (context : Bool) (request : ListCall) :
    Decidable ((locatingClients target list calls).allowed moves context request) :=
  have := decidable_of_iff _ (@ListCall.locating_eq_some_iff list request (calls context))
  inferInstanceAs (Decidable (_ ∧ _))

/-- The replies that contexts were given. -/
def repliesIn : ListMoves Bool → List (Bool × ListReply)
  | [] => []
  | (context, .returned _ result) :: earlier => (context, result) :: repliesIn earlier
  | _ :: earlier => repliesIn earlier

/-- A context is through with its call, with this reply. -/
def Settled (context : Bool) (moves : ListMoves Bool) (result : ListReply) : Prop :=
  let phase := (stage target list calls context moves).phase
  phase.Over (calls context).removes ∧ result = (calls context).reply (decide phase.Done)

variable (start : World Bool) (items : List Nat)

/-- What holds between any two steps. -/
structure LocatingAt (world : World Bool) : Prop where
  benched : ∃ bench, Located.Reaches (locatingTasks calls) (locatingGain target list calls start)
      (.fresh items (stock start.views (3 * target.word))
        (makeable target start.views (3 * target.word) start.state)) bench ∧
    Coupled target list calls start world
      (fun context => stage target list calls context world.moves) bench
  aims : ∀ context, ∀ node ∈ (stage target list calls context world.moves).aim,
    foundNode target list (calls context).reference world.state = node
  settled : ∀ context result, (context, result) ∈ repliesIn world.moves →
    Settled target list calls context world.moves result

def locatingUsage : Usage Bool where
  inv := LocatingAt target list calls start items
  rely := fun _ _ _ => True
  meets := fun moves => FindsAgain target list calls moves ∧ FindsSpare target moves
  idle := fun _ _ => True
  done := fun context _ result world => Settled target list calls context world.moves result

/-- The discipline of the two calls. -/
abbrev locating := (locatingUsage target list calls start items).discipline target

end Definitions

variable {target : Target} {list node new item : Nat} {calls : Bool → LocatingCall}
  {start world next : World Bool} {items : List Nat} {context other : Bool} {request : ListCall}
  {result : ListReply} {now : Stage} {move : ListMove} {moves : ListMoves Bool}

/-! ## The discipline -/

theorem Settled.of_other (hother : other ≠ context) :
    Settled target list calls context ((other, move) :: moves) result ↔
      Settled target list calls context moves result := by
  unfold Settled
  rw [stage_of_other hother]

theorem settled_stable :
    (locating target list calls start items).Stable context
      fun world => Settled target list calls context world.moves result := by
  rintro world next hsettled - - - ⟨⟨⟨other, move, hother, hmoves, -⟩, -⟩, -⟩
  rwa [hmoves, Settled.of_other hother]

theorem stage_stable :
    (locating target list calls start items).Stable context
      fun world => stage target list calls context world.moves = now := by
  rintro world next hstage - - - ⟨⟨⟨other, move, hother, hmoves, -⟩, -⟩, -⟩
  rwa [hmoves, stage_of_other hother]

/-- What the condition on the run tells of the state after a step. -/
theorem FindsAgain.aims
    (hmoves : next.moves = (context, .stepped request world.state next.state) :: world.moves)
    (hfinds : FindsAgain target list calls next.moves) :
    ∀ other, ∀ node ∈ (stage target list calls other next.moves).aim,
      foundNode target list (calls other).reference next.state = node := by
  rw [hmoves] at hfinds ⊢
  exact hfinds.1

/-- A step of a context that is not through keeps to the discipline if the bench
goes along. -/
theorem locating_makes {bench : Located.Bench (List Nat)}
    (hinv : LocatingAt target list calls start items world)
    (hmoves : Moves target context (.stepped request world.state next.state) world next)
    (hunfinished : ¬ (stage target list calls context world.moves).phase.Over
      (calls context).removes)
    (hreaches : Located.Reaches (locatingTasks calls) (locatingGain target list calls start)
      (.fresh items (stock start.views (3 * target.word))
        (makeable target start.views (3 * target.word) start.state)) bench)
    (hcoupled : Coupled target list calls start next
      (fun context => stage target list calls context next.moves) bench)
    (haims : ∀ other, ∀ node ∈ (stage target list calls other next.moves).aim,
      foundNode target list (calls other).reference next.state = node) :
    (locating target list calls start items).Makes context
      (.stepped request world.state next.state) world next := by
  refine hmoves.makes ⟨⟨bench, hreaches, hcoupled⟩, haims, ?_⟩ fun _ _ => trivial
  intro other reply hreply
  rw [hmoves.moves] at hreply ⊢
  have hsettled := hinv.settled other reply hreply
  have hother : context ≠ other := by
    rintro rfl
    exact hunfinished hsettled.1
  exact (Settled.of_other hother).mpr hsettled

/-! ## Sections -/

/-- A section moves its context to another stage and the bench along. What the
context gains by it is kept beside. -/
theorem follows_section {Value : Type} {program : Code Value} {extra : World Bool → Prop}
    {later : Value → Stage} {gained : Value → World Bool → Prop} (hatomic : program.Atomic)
    (hextra : (locating target list calls start items).Stable context extra)
    (hgained : ∀ value, (locating target list calls start items).Stable context (gained value))
    (hunfinished : ¬ now.phase.Over (calls context).removes)
    (hworld : stage target list calls context world.moves = now ∧ extra world)
    (hreturns : ∀ world bench, stage target list calls context world.moves = now → extra world →
      world.Shared target →
      (∀ node ∈ now.aim, foundNode target list (calls context).reference world.state = node) →
      Coupled target list calls start world
        (fun context => stage target list calls context world.moves) bench →
      program.Returns world.state fun value after =>
        FindsSpare target ((context, .stepped request world.state after) :: world.moves) →
        ∃ next coming, next.state = after ∧
          Moves target context (.stepped request world.state after) world next ∧
          now.next target list (calls context) world.state after = later value ∧
          Located.Step (locatingTasks calls) (locatingGain target list calls start) context bench
            coming ∧
          Coupled target list calls start next (Function.update
            (fun context => stage target list calls context world.moves) context (later value))
            coming ∧
          gained value next) :
    (locating target list calls start items).Follows context request
      (fun value world => stage target list calls context world.moves = later value ∧
        gained value world) program world := by
  apply Discipline.Follows.atomic hatomic (stable_and stage_stable hextra) hworld
    fun value => stable_and stage_stable (hgained value)
  rintro world ⟨hnow, hworld⟩ hinv
  obtain ⟨bench, hreaches, hcoupled⟩ := hinv.2.benched
  have haim : ∀ node ∈ now.aim,
      foundNode target list (calls context).reference world.state = node :=
    hnow ▸ hinv.2.aims context
  apply (hreturns world bench hnow hworld hinv.1 haim hcoupled).mono
  rintro value after hspec ⟨hfinds, hspare⟩
  obtain ⟨next, coming, rfl, hmoves, hlater, hstep, hnext, hgains⟩ := hspec hspare
  have hstage : stage target list calls context next.moves = later value := by
    rw [hmoves.moves, stage_stepped, hnow, hlater]
  refine ⟨next, rfl, locating_makes hinv.2 hmoves (hnow ▸ hunfinished)
    (hreaches.tail ⟨context, hstep⟩) ?_ (FindsAgain.aims hmoves.moves ?_), hstage, hgains⟩
  · rw [hmoves.moves, stages_stepped, hnow, hlater]
    exact hnext
  · rw [hmoves.moves]
    exact hfinds

/-- The list that the calls are on. -/
theorem Coupled.exists_view {stages : Bool → Stage} {bench : Located.Bench (List Nat)}
    (hcoupled : Coupled target list calls start world stages bench) :
    ∃ view rest, world.lists.Perm (view :: rest) ∧ view.header = list ∧
      view.items target world.state = bench.object := by
  obtain ⟨view, hview, hheader, hitems⟩ := hcoupled.shown
  obtain ⟨front, back, heq⟩ := List.append_of_mem hview
  exact ⟨view, front ++ back, heq ▸ List.perm_middle, hheader, hitems⟩

section Calls

variable (hlist : list ≠ null) (href : (calls context).reference ≠ null)
include hlist href

theorem follows_search (hworld : stage target list calls context world.moves = .waiting) :
    (locating target list calls start items).Follows context request
      (fun node world => stage target list calls context world.moves =
        searched (calls context) node ∧ True)
      (tbxListFindListNode target list (calls context).reference) world := by
  have hunfinished : ¬ Stage.waiting.phase.Over (calls context).removes := by
    cases (calls context).removes <;> simp [Stage.phase, Located.Phase.Over]
  apply follows_section (tbxListFindListNode_atomic hlist href) (stable_const True)
    (fun _ => stable_const True) hunfinished ⟨hworld, trivial⟩
  rintro world bench hnow - hshared - hcoupled
  obtain ⟨view, rest, hperm, rfl, hitems⟩ := hcoupled.exists_view
  have hview : view ∈ world.lists := hperm.mem_iff.mpr List.mem_cons_self
  apply (hshared.findListNode context request hview href).mono
  rintro node _ ⟨hfound, -, next, ⟨hmoves, hkeeps, rfl⟩, hsame⟩ -
  have hnode := hshared.memory.foundNode_eq hview href hfound
  have hmem : node ≠ null ↔ (calls context).reference ∈ bench.object :=
    hitems ▸ hfound.ne_null_iff (hshared.memory.listCells hview).apart
  have hphase := hcoupled.phase context
  rw [hnow] at hphase
  have hstep : Located.Step (locatingTasks calls) (locatingGain target view.header calls start)
      context bench (bench.enter context (searched (calls context) node).phase) := by
    unfold searched
    by_cases hnull : node = null
    · rw [if_pos hnull]
      exact .miss hphase fun hpresent => hmem.mpr hpresent hnull
    · rw [if_neg hnull]
      split <;> exact .locate hphase (hmem.mp hnull)
  refine ⟨next, _, rfl, hmoves, congrArg (searched _) hnode, hstep, ?_, trivial⟩
  refine hcoupled.keep hshared hmoves.shared hkeeps rfl rfl rfl ?_ ?_ ?_ ?_
    (searched_ne_unlinked _ _)
  · rw [hsame.views]
    exact hcoupled.stock
  · rw [hsame.views, makeable_same hsame.allocated]
    exact hcoupled.makeable
  · rw [hsame.app, inHand_keep]
    · exact hcoupled.app
    · rw [searched_block, hnow]
      rfl
  · exact .inr ⟨by rw [hnow]; exact id, hsame.views⟩

end Calls

/-! ## Insertions -/

/-- A node in hand that nothing is known of yet. -/
def Obtains (target : Target) (context : Bool) (data : Nat) (world : World Bool) : Prop :=
  data ≠ null → OwnsNode target context data (fun _ => none) world

theorem Obtains.stable : (locating target list calls start items).Stable context
    (Obtains target context new) :=
  stable_imp fun _ => OwnsNode.stable

section Insertions

variable (hneeds : (calls context).removes = false)
include hneeds

/-- The first attempt to allocate a node. -/
theorem follows_firstAllocate
    (hworld : stage target list calls context world.moves = .located node) :
    (locating target list calls start items).Follows context request
      (fun data world => stage target list calls context world.moves =
        (if data = null then .refused node else .holding node data) ∧
          Obtains target context data world)
      (tbxMemPoolAllocate target (3 * target.word)) world := by
  apply follows_section (tbxMemPoolAllocate_atomic objectSize_pos) (stable_const True)
    (fun _ => Obtains.stable) (by simp [hneeds, Stage.phase, Located.Phase.Over]) ⟨hworld, trivial⟩
  rintro world bench hnow - hshared - hcoupled
  have hphase := hcoupled.phase context
  rw [hnow] at hphase
  apply (hshared.allocate_cases context request objectSize_pos).mono
  rintro data after ⟨next, hadvances, ⟨hrefused, rfl, hsame, rfl⟩ |
    ⟨htakes, howner, happ, hholder, -⟩⟩ -
  · obtain ⟨hmoves, hkeeps, hstate⟩ := hadvances
    have hnone : bench.stock = 0 := hcoupled.stock ▸ stock_eq_zero hrefused
    rw [hstate] at hmoves
    refine ⟨next, _, hstate, hmoves, ?_, .refuse hphase hneeds hnone, ?_, fun hne => absurd rfl hne⟩
    · rw [Stage.next, newBlock_none rfl]
      rfl
    · refine hcoupled.keep hshared hmoves.shared hkeeps rfl rfl rfl ?_ ?_ ?_ (.inl trivial)
        (fun _ heq => by cases heq)
      · rw [hsame.views]
        exact hcoupled.stock
      · rw [hsame.views, makeable_same hsame.allocated]
        exact hcoupled.makeable
      · rw [hsame.app, inHand_keep]
        · exact hcoupled.app
        · rw [hnow]
          rfl
  · have hne := htakes.ne_null hshared.memory.pools
    obtain ⟨left, hstock, hnew, hnext⟩ :=
      hcoupled.takes hshared (by rw [hnow]; rfl) hadvances htakes happ
    refine ⟨next, _, hadvances.state, hadvances.state ▸ hadvances.moves, ?_,
      .take hphase hneeds hstock, ?_, fun _ => ⟨hholder, ?_, fun _ _ _ hknown => by cases hknown⟩⟩
    · rw [Stage.next, hnew, if_neg hne]
    · rw [if_neg hne]
      exact hnext
    · exact howner ▸ htakes.holds hshared.memory.pools

omit hneeds in
/-- A block is made when there was none. -/
theorem follows_create (hdemand : request.demand target = some (3 * target.word))
    (hneeds : (calls context).removes = false)
    (hworld : stage target list calls context world.moves = .refused node) :
    (locating target list calls start items).Follows context request
      (fun status world => stage target list calls context world.moves =
        (if status = .ok then .awaiting node else .failed) ∧
          (status = .ok → 3 * target.word ∈ awaited target context world.moves))
      (tbxMemPoolCreate target 1 (3 * target.word)) world := by
  apply follows_section (tbxMemPoolCreate_atomic Nat.one_pos objectSize_pos) (stable_const True)
    (fun _ => stable_imp fun _ => stable_awaited)
    (by simp [hneeds, Stage.phase, Located.Phase.Over]) ⟨hworld, trivial⟩
  rintro world bench hnow - hshared - hcoupled
  have hpools := hshared.memory.pools
  have hphase := hcoupled.phase context
  rw [hnow] at hphase
  apply (hshared.create_cases context request objectSize_pos objectSize_sound).mono
  rintro status _ ⟨next, ⟨hmoves, hkeeps, rfl⟩, hcreates, happ, hholder, hadded⟩ -
  have hperm : next.app.Perm (inHand (Function.update (fun context => stage target list calls context
      world.moves) context (if status = .ok then .awaiting node else .failed)) ++ start.app) := by
    rw [happ, inHand_keep]
    · exact hcoupled.app
    · rw [hnow]
      split <;> rfl
  cases status with
  | ok =>
      obtain ⟨hmakeable, hpos, hle⟩ := hcreates.supply_ok hpools objectSize_pos
      rw [hcoupled.makeable] at hmakeable
      rw [hcoupled.stock] at hle
      refine ⟨next, _, rfl, hmoves, ?_, .make hphase hmakeable.symm hpos hle, ?_, fun _ => ?_⟩
      · rw [Stage.next, if_neg (hadded.mp rfl)]
        rfl
      · exact hcoupled.keep hshared hmoves.shared hkeeps rfl rfl rfl rfl rfl hperm (.inl trivial)
          (fun _ heq => by cases heq)
      · rw [hmoves.moves, awaited, if_pos rfl, hdemand]
        exact Option.filter_some_pos (decide_eq_true (hadded.mp rfl))
  | error =>
      obtain ⟨hbefore, hafter, hle⟩ := hcreates.supply_error hpools
      rw [hcoupled.makeable] at hbefore
      rw [hcoupled.stock] at hle
      refine ⟨next, _, rfl, hmoves, ?_, .fail hphase hbefore hle, ?_, fun hok => by cases hok⟩
      · rw [Stage.next, if_pos]
        · rfl
        · exact not_not.mp fun hne => Status.noConfusion (hadded.mpr hne)
      · exact hcoupled.keep hshared hmoves.shared hkeeps rfl rfl rfl rfl (hafter.trans hbefore.symm)
          hperm (.inl trivial) (fun _ heq => by cases heq)

/-- The block that was made is still there to be taken. -/
theorem follows_takeMade (hworld : stage target list calls context world.moves = .awaiting node ∧
      3 * target.word ∈ awaited target context world.moves) :
    (locating target list calls start items).Follows context request
      (fun data world => stage target list calls context world.moves = .holding node data ∧
        data ≠ null ∧ Obtains target context data world)
      (tbxMemPoolAllocate target (3 * target.word)) world := by
  apply follows_section (tbxMemPoolAllocate_atomic objectSize_pos) stable_awaited
    (fun _ => stable_and (stable_const _) Obtains.stable)
    (by simp [hneeds, Stage.phase, Located.Phase.Over]) hworld
  rintro world bench hnow hawaited hshared - hcoupled
  have hpools := hshared.memory.pools
  have hphase := hcoupled.phase context
  rw [hnow] at hphase
  apply (hshared.allocate_cases context request objectSize_pos).mono
  rintro data after ⟨next, hadvances, ⟨hrefused, -⟩ | ⟨htakes, howner, happ, hholder, -⟩⟩ hspare
  · obtain ⟨view, hview, hsize, hstocked⟩ := hpools.stocked_of_spare (hspare.1 _ hawaited)
    exact absurd (serves_of_stocked hpools.list.ascending hview hsize hstocked) hrefused
  · obtain ⟨left, hstock, hnew, hnext⟩ :=
      hcoupled.takes hshared (by rw [hnow]; rfl) hadvances htakes happ
    refine ⟨next, _, hadvances.state, hadvances.state ▸ hadvances.moves, ?_,
      .takeMade hphase hstock, hnext, htakes.ne_null hpools, fun _ => ⟨hholder, ?_, ?_⟩⟩
    · rw [Stage.next, hnew]
    · exact howner ▸ htakes.holds hpools
    · exact fun _ _ _ hknown => by cases hknown

/-- The node of the item is allocated, or there is no memory for it. -/
theorem follows_newListNode (hdemand : request.demand target = some (3 * target.word))
    (hworld : stage target list calls context world.moves = .located node) :
    (locating target list calls start items).Follows context request
      (fun data world => stage target list calls context world.moves =
        (if data = null then .failed else .holding node data) ∧ Obtains target context data world)
      (newListNode target) world := by
  have hpost : ∀ data, (locating target list calls start items).Stable context fun world =>
      stage target list calls context world.moves =
        (if data = null then .failed else .holding node data) ∧ Obtains target context data world :=
    fun _ => stable_and stage_stable Obtains.stable
  apply (follows_firstAllocate hneeds hworld).bind
  rintro data world ⟨hstage, hobtains⟩
  by_cases hnull : data = null
  · rw [if_pos hnull] at hstage ⊢
    apply (follows_create hdemand hneeds hstage).bind
    rintro status world ⟨hcreated, hawaited⟩
    cases status with
    | ok =>
        apply (follows_takeMade hneeds ⟨hcreated, hawaited rfl⟩).mono hpost
        rintro data world ⟨htaken, hne, hobtains⟩
        exact ⟨by rw [htaken, if_neg hne], hobtains⟩
    | error => exact .ret (hpost _) ⟨hcreated, fun hne => absurd rfl hne⟩
  · rw [if_neg hnull] at hstage ⊢
    exact .ret (hpost _) ⟨by rw [hstage, if_neg hnull], hobtains⟩

omit hneeds in
/-- The new node is initialized while the stage stays. -/
theorem holding_shelters (href : ∀ context, (calls context).reference ≠ null)
    (hneeds : (calls context).removes = false) :
    Shelters target (locatingUsage target list calls start items) context
      fun world => stage target list calls context world.moves = .holding node new where
  stable := stage_stable
  own := by
    rintro request world next hnow ⟨hshared, hinv⟩ hmoves hkeeps hsame
    obtain ⟨bench, hreaches, hcoupled⟩ := hinv.benched
    obtain ⟨view, hview, hheader, -⟩ := hcoupled.shown
    have hphase := hcoupled.phase context
    rw [hnow] at hphase
    have hcount := hkeeps.cells view.header (mem_blocksOf hview List.mem_cons_self)
      TbxList.nodeCount (by norm_num)
    have hstages : (fun context => stage target list calls context next.moves) =
        fun context => stage target list calls context world.moves := by
      rw [hmoves.moves, stages_stepped, hnow, Stage.next, if_pos (hheader ▸ hcount), ← hnow]
      exact Function.update_eq_self _ _
    have hstage : ∀ context, stage target list calls context next.moves =
        stage target list calls context world.moves := congrFun hstages
    refine ⟨locating_makes hinv hmoves (by simp [hnow, hneeds, Stage.phase, Located.Phase.Over])
      hreaches ?_ ?_, (hstage context).trans hnow⟩
    · have hupdate : (fun context => stage target list calls context next.moves) =
          Function.update (fun context => stage target list calls context world.moves) context
            (.holding node new) := by
        rw [hstages, ← hnow]
        exact (Function.update_eq_self _ _).symm
      rw [hupdate]
      refine hcoupled.keep hshared hmoves.shared hkeeps rfl rfl ?_ ?_ ?_ ?_ (.inl trivial)
        (fun _ heq => by cases heq)
      · exact (Function.update_eq_iff.mpr ⟨hphase.symm, fun _ _ => rfl⟩).symm
      · rw [hsame.views]
        exact hcoupled.stock
      · rw [hsame.views, makeable_same hsame.allocated]
        exact hcoupled.makeable
      · rw [hsame.app, inHand_keep]
        · exact hcoupled.app
        · rw [hnow]
    · intro other aim haim
      rw [hstage other] at haim
      rw [← hinv.aims other aim haim, ← hheader]
      exact hkeeps.foundNode_eq hshared hmoves.shared hview (href other)

end Insertions

/-! ## Changes -/

section Changes

variable (href : (calls context).reference ≠ null)
include href

/-- The new node is linked where a search would still put it. -/
theorem follows_link {site : Site} {link : Nat → Nat → Nat → Code Unit} (hne : node ≠ null)
    (hinserting : Inserting target (calls context) item site link)
    (hworld : stage target list calls context world.moves = .holding node new ∧
      OwnsNode target context new (initialized item) world) :
    (locating target list calls start items).Follows context request
      (fun _ world => stage target list calls context world.moves = .linked ∧ True)
      (link list new node) world := by
  have hneeds := hinserting.removes
  apply follows_section hinserting.atomic OwnsNode.stable (fun _ => stable_const True)
    (by simp [hneeds, Stage.phase, Located.Phase.Over]) hworld
  rintro world bench hnow hown hshared haim hcoupled
  obtain ⟨view, rest, hperm, rfl, hitems⟩ := hcoupled.exists_view
  have hview : view ∈ world.lists := hperm.mem_iff.mpr List.mem_cons_self
  have hphase := hcoupled.phase context
  rw [hnow] at hphase
  have hfound := hshared.memory.found hview href
  rw [haim node rfl] at hfound
  have hmem := (hfound.ne_null_iff (hshared.memory.listCells hview).apart).mp hne
  obtain ⟨before, behind, hsplit, hnot, hitem⟩ := hfound.resolve_left fun hnone => hne hnone.1
  obtain ⟨front, back, hparts, hlinks, hchange⟩ := hinserting.place hsplit hnot hitem
  apply (hshared.linkNode context request hperm hown hparts hlinks).mono
  rintro _ _ ⟨next, hrelinks, hafter, -, happ, hviews, hallocated⟩ -
  obtain ⟨hmoves, hlists, -, rfl⟩ := id hrelinks
  refine ⟨next, _, rfl, hmoves, ?_, .change ?_ (hitems ▸ hmem), ?_, trivial⟩
  · have hcount := nodeCount_eq hshared hview
    have hlonger := nodeCount_eq hmoves.shared (hlists ▸ List.mem_cons_self)
    rw [Stage.next, if_neg]
    rw [hcount, hlonger, hparts]
    simp
  · rw [hphase, if_neg (by simp [locatingTasks, LocatingCall.task, hneeds])]
    rfl
  · refine hcoupled.relink hperm rfl hrelinks ?_ rfl hviews hallocated ?_ (.inl trivial)
      (fun _ heq => by cases heq)
    · rw [hafter, ← hchange, ← hitems]
    · rw [happ]
      exact hcoupled.app_erase (by rw [hnow]; rfl) rfl

/-- The node is unlinked that a search would still find. -/
theorem follows_unlinkFound (hne : node ≠ null) (hcall : calls context = .removeItem item)
    (hworld : stage target list calls context world.moves = .targeted node) :
    (locating target list calls start items).Follows context request
      (fun _ world => stage target list calls context world.moves = .unlinked node ∧
        world.holder node = some context)
      (removeListNode target list node) world := by
  apply follows_section removeListNode_atomic (stable_const True) (fun _ => stable_holder)
    (by simp [hcall, LocatingCall.removes, Stage.phase, Located.Phase.Over]) ⟨hworld, trivial⟩
  rintro world bench hnow - hshared haim hcoupled
  obtain ⟨view, rest, hperm, rfl, hitems⟩ := hcoupled.exists_view
  have hview : view ∈ world.lists := hperm.mem_iff.mpr List.mem_cons_self
  have hphase := hcoupled.phase context
  rw [hnow] at hphase
  have hfound := hshared.memory.found hview href
  rw [haim node rfl] at hfound
  have hmem := (hfound.ne_null_iff (hshared.memory.listCells hview).apart).mp hne
  obtain ⟨front, back, hsplit, hnot, hitem⟩ := hfound.resolve_left fun hnone => hne hnone.1
  apply (hshared.removeListNode context request hperm hsplit).mono
  rintro _ _ ⟨next, hrelinks, hafter, hholder, -, happ, hviews, hallocated⟩ -
  obtain ⟨hmoves, hlists, -, rfl⟩ := id hrelinks
  refine ⟨next, _, rfl, hmoves, rfl, .change ?_ (hitems ▸ hmem), ?_, hholder⟩
  · rw [hphase, if_pos (by simp [locatingTasks, LocatingCall.task, hcall, LocatingCall.removes])]
    rfl
  · refine hcoupled.relink hperm rfl hrelinks ?_ rfl hviews hallocated ?_
      (.inr ⟨by rw [hnow]; exact id, hviews⟩) ?_
    · rw [hafter, ← hitems, ListView.items, hsplit, itemsOf_append, itemsOf_append, itemsOf_cons]
      rw [hitem, hcall] at *
      exact (Sequence.erase_split hnot).symm
    · rw [happ]
      exact (hcoupled.app.cons node).trans
        ((inHand_take (by rw [hnow]; rfl) rfl).symm.append_right _)
    · rintro other heq
      cases heq
      exact ⟨haim node rfl, href⟩

omit href in
/-- The node that was unlinked is released. -/
theorem follows_releaseFound (hne : node ≠ null) (hcall : calls context = .removeItem item)
    (hworld : stage target list calls context world.moves = .unlinked node ∧
      world.holder node = some context) :
    (locating target list calls start items).Follows context request
      (fun _ world => stage target list calls context world.moves = .removed ∧ True)
      (tbxMemPoolRelease target node) world := by
  have hadds : (locatingTasks calls context).adds = true := by
    simp [locatingTasks, LocatingCall.task, hcall, LocatingCall.removes]
  apply follows_section (tbxMemPoolRelease_atomic hne) stable_holder (fun _ => stable_const True)
    (by simp [hcall, LocatingCall.removes, Stage.phase, Located.Phase.Over]) hworld
  rintro world bench hnow hholder hshared - hcoupled
  have hphase := hcoupled.phase context
  rw [hnow] at hphase
  apply (hshared.release_cases context request hholder).mono
  rintro _ _ ⟨next, ⟨hmoves, hkeeps, rfl⟩, hgives, happ, -⟩ -
  obtain ⟨hstock, hmakeable⟩ := hgives.supply hshared.memory.pools
  refine ⟨next, { bench.enter context .added with
    stock := bench.stock + regained target world.views (3 * target.word) node
    gained := bench.gained + regained target world.views (3 * target.word) node },
    rfl, hmoves, rfl, .add hphase hadds ?_, ?_, trivial⟩
  · intro horder huntouched
    have hviews : world.views = start.views := by
      apply hcoupled.views
      intro other
      by_cases heq : other = context
      · rw [heq, hnow]
        exact id
      · rw [hcoupled.phase] at huntouched
        rw [Bool.eq_not.mpr heq]
        exact Stage.not_touched huntouched
    rw [hviews, hcoupled.first context node hnow horder]
    rfl
  · refine hcoupled.keep hshared hmoves.shared hkeeps rfl rfl rfl ?_ ?_ ?_ (.inl trivial)
      (fun _ heq => by cases heq)
    · rw [hstock, hcoupled.stock]
    · rw [hmakeable]
      exact hcoupled.makeable
    · rw [happ]
      exact hcoupled.app_erase (by rw [hnow]; rfl) rfl

end Changes

/-! ## Calls -/

section Calls

variable (hlist : list ≠ null) (hvalid : ∀ context, (calls context).operation.Valid)
include hlist hvalid

theorem follows_locatingInsertion {site : Site} {link : Nat → Nat → Nat → Code Unit}
    (hinserting : Inserting target (calls context) item site link)
    (hdemand : request.demand target = some (3 * target.word))
    (hworld : stage target list calls context world.moves = .waiting) :
    (locating target list calls start items).Follows context request
      (fun status world => Settled target list calls context world.moves (.status status))
      (insertNextTo target site link list item (calls context).reference) world := by
  have href : ∀ context, (calls context).reference ≠ null :=
    fun context => LocatingCall.reference_ne_null (hvalid context)
  have hneeds := hinserting.removes
  have hreply : ∀ changed, (calls context).reply changed =
      .status (if changed then .ok else .error) := fun changed => if_neg (by simp [hneeds])
  have herror : ∀ world : World Bool, (stage target list calls context world.moves = .missed ∨
      stage target list calls context world.moves = .failed) →
      Settled target list calls context world.moves (.status .error) := by
    rintro world (hstage | hstage) <;>
      simp [Settled, hstage, hreply, Stage.phase, Located.Phase.Over, Located.Phase.Done]
  rw [insertNextTo_eq hlist (hinserting.valid (hvalid context)).1 (href context)]
  apply (follows_search hlist (href context) hworld).bind
  rintro node world ⟨hsearched, -⟩
  by_cases hnull : node = null
  · rw [if_neg (not_not.mpr hnull)]
    rw [searched, if_pos hnull] at hsearched
    exact .ret settled_stable (herror world (.inl hsearched))
  rw [if_pos hnull]
  rw [searched, if_neg hnull, hneeds, if_neg (by simp)] at hsearched
  apply (follows_newListNode hneeds hdemand hsearched).bind
  rintro new world ⟨hstage, hobtains⟩
  by_cases hnew : new = null
  · rw [if_neg (not_not.mpr hnew)]
    rw [if_pos hnew] at hstage
    exact .ret settled_stable (herror world (.inr hstage))
  rw [if_pos hnew]
  rw [if_neg hnew] at hstage
  apply (follows_initListNode (holding_shelters href hneeds) ⟨hstage, hobtains hnew⟩ hnew).bind
  intro _ world hready
  apply (follows_link (href context) hnull hinserting hready).map fun _ => settled_stable
  rintro _ world ⟨hlinked, -⟩
  simp [Settled, hlinked, hreply, hneeds, Stage.phase, Located.Phase.Over, Located.Phase.Done]

theorem follows_locatingRemoval (hcall : calls context = .removeItem item)
    (hworld : stage target list calls context world.moves = .waiting) :
    (locating target list calls start items).Follows context request
      (fun _ world => Settled target list calls context world.moves .none)
      (tbxListRemoveItem target list item) world := by
  have href := LocatingCall.reference_ne_null (hvalid context)
  have hitem : (calls context).reference = item := by rw [hcall]; rfl
  have hsettled : ∀ world : World Bool, (stage target list calls context world.moves = .missed ∨
      stage target list calls context world.moves = .removed) →
      Settled target list calls context world.moves .none := by
    rintro world (hstage | hstage) <;>
      simp [Settled, hstage, hcall, LocatingCall.reply, LocatingCall.removes, Stage.phase,
        Located.Phase.Over]
  rw [tbxListRemoveItem_eq hlist (hitem ▸ href), ← hitem]
  apply (follows_search hlist href hworld).bind
  rintro node world ⟨hsearched, -⟩
  by_cases hnull : node = null
  · rw [if_neg (not_not.mpr hnull)]
    rw [searched, if_pos hnull] at hsearched
    exact .ret settled_stable (hsettled world (.inl hsearched))
  rw [if_pos hnull]
  rw [searched, if_neg hnull, hcall] at hsearched
  apply (follows_unlinkFound href hnull hcall hsearched).bind
  rintro _ world hunlinked
  apply (follows_releaseFound hnull hcall hunlinked).mono fun _ => settled_stable
  exact fun _ world hremoved => hsettled world (.inr hremoved.1)

theorem follows_locatingCall (hworld : stage target list calls context world.moves = .waiting) :
    (locating target list calls start items).Follows context (.on list (calls context).operation)
      (fun reply world => Settled target list calls context world.moves reply)
      ((calls context).operation.perform target list) world := by
  rcases (calls context).cases target with ⟨item, hcall⟩ | ⟨item, site, link, hinserting⟩
  · rw [hcall]
    apply (follows_locatingRemoval hlist hvalid hcall hworld).map fun _ => settled_stable
    exact fun _ _ hsettled => hsettled
  · have hdemand : (ListCall.on list (calls context).operation).demand target =
        some (3 * target.word) := by
      generalize calls context = call at hinserting
      cases hinserting <;> rfl
    rw [hinserting.perform]
    apply (follows_locatingInsertion hlist hvalid hinserting hdemand hworld).map
      fun _ => settled_stable
    exact fun _ _ hsettled => hsettled

end Calls

/-! ## Every interleaving -/

theorem FindsAgain.tail {move : Bool × ListMove}
    (hfinds : FindsAgain target list calls (move :: moves)) : FindsAgain target list calls moves := by
  obtain ⟨other, called | stepped | returned⟩ := move
  · exact hfinds
  · exact hfinds.2
  · exact hfinds

theorem stage_of_fresh (hfresh : context ∉ moves.map Prod.fst) :
    stage target list calls context moves = .waiting := by
  induction moves with
  | nil => rfl
  | cons move earlier ih =>
      obtain ⟨other, move⟩ := move
      rw [List.map_cons, List.mem_cons, not_or] at hfresh
      rw [stage_of_other (Ne.symm hfresh.1)]
      exact ih hfresh.2

/-- Calls and returns leave the contexts at their stages. -/
theorem LocatingAt.record (hinv : LocatingAt target list calls start items world)
    (hstages : ∀ other, stage target list calls other ((context, move) :: world.moves) =
      stage target list calls other world.moves)
    (hreplies : ∀ other reply, (other, reply) ∈ repliesIn ((context, move) :: world.moves) →
      Settled target list calls other world.moves reply) :
    LocatingAt target list calls start items (world.recorded context move) := by
  obtain ⟨⟨bench, hreaches, hcoupled⟩, haims, -⟩ := hinv
  have hsame : (fun other => stage target list calls other (world.recorded context move).moves) =
      fun other => stage target list calls other world.moves := funext hstages
  refine ⟨⟨bench, hreaches, ?_⟩, fun other => ?_, fun other reply hreply => ?_⟩
  · rw [hsame]
    exact ⟨hcoupled.phase, hcoupled.shown, hcoupled.stock, hcoupled.makeable, hcoupled.app,
      hcoupled.headers, hcoupled.views, hcoupled.found, hcoupled.first⟩
  · rw [World.recorded_moves, hstages]
    exact haims other
  · rw [World.recorded_moves, Settled, hstages]
    exact hreplies other reply hreply

theorem LocatingAt.makes (hnext : LocatingAt target list calls start items
      (world.recorded context move)) (hshared : world.Shared target)
    (hrecorded : Recorded move world.state world.state) :
    (locating target list calls start items).Makes context move world
      (world.recorded context move) :=
  (hshared.moves_record hrecorded).makes hnext fun _ _ => trivial

theorem locating_sound (hlist : list ≠ null) (hvalid : ∀ context, (calls context).operation.Valid) :
    (locating target list calls start items).Sound (locatingClients target list calls) where
  suffix := fun _ _ hmeets => ⟨hmeets.1.tail, hmeets.2.tail⟩
  idle := fun _ => stable_const True
  call := by
    rintro context request world ⟨hshared, hinv⟩ - ⟨rfl, hfresh⟩ -
    have hwaiting : stage target list calls context world.moves = .waiting := stage_of_fresh hfresh
    have hnext : LocatingAt target list calls start items
        (world.recorded context (.called (.on list (calls context).operation))) :=
      hinv.record (fun _ => rfl) hinv.settled
    exact ⟨world.recorded context (.called _), rfl, hnext.makes hshared rfl,
      follows_locatingCall hlist hvalid hwaiting⟩
  finish := by
    rintro context request result world ⟨hshared, hinv⟩ hsettled -
    have hnext : LocatingAt target list calls start items
        (world.recorded context (.returned request result)) := by
      apply hinv.record (fun _ => rfl)
      intro other reply hreply
      rcases List.mem_cons.mp hreply with heq | hearlier
      · cases heq
        exact hsettled
      · exact hinv.settled other reply hearlier
    exact ⟨world.recorded context (.returned _ _), rfl, hnext.makes hshared rfl, trivial⟩

section Definitions

variable (target : Target) (list : Nat) (calls : Bool → LocatingCall) (history : List ListExchange)
  (state : State)

/-- The lists and pools are as they should be, with every block that is handed
out either in a list or one of the application's. The replies of the two calls
and the items are those of one call after the other. -/
def EndsInOrder (shared : State) (replies : Bool → ListReply) : Prop :=
  ∃ owner views lists, ListsAt target owner views lists (ownBlocks history) shared ∧
    (lists.map ListView.header).Perm (liveLists history) ∧
    ∃ view ∈ lists, view.header = list ∧ ∃ first middle last,
      ((calls first).operation.perform target list).run 0 state =
          .done (replies first) 0 middle ∧
        ((calls (!first)).operation.perform target list).run 0 middle =
          .done (replies (!first)) 0 last ∧
        Shows target list last (view.items target shared)

end Definitions

/-- What the bench tells is what the calls do one after the other. -/
theorem LocatingAt.ends {owner : Ownership} {views : List PoolView} {lists : List ListView}
    {view : ListView} {state : State} {history : List ListExchange} {replies : Bool → ListReply}
    (hat : RunAt target history state owner views lists) (hview : view ∈ lists)
    (hvalid : ∀ context, (calls context).operation.Valid)
    (hshared : world.Shared target)
    (hinv : LocatingAt target view.header calls ⟨state, [], owner, views, lists, ownBlocks history,
      fun _ => none⟩ (view.items target state) world)
    (hreplies : ∀ context, (context, replies context) ∈ repliesIn world.moves) :
    EndsInOrder target view.header calls history state world.state replies := by
  obtain ⟨⟨bench, hreaches, hcoupled⟩, -, hsettled⟩ := hinv
  obtain ⟨hchanges, hsupplied⟩ := hreaches.sound
  have hthrough := fun context => hsettled context _ (hreplies context)
  have hover : ∀ context, (bench.phase context).Over (locatingTasks calls context).adds := by
    intro context
    rw [hcoupled.phase]
    exact (hthrough context).1
  obtain ⟨first, between, left, amount, last, hfirst, hsecond⟩ := hchanges.serial hsupplied hover
  rw [hcoupled.phase] at hfirst hsecond
  -- Both calls made alone, one after the other, are the same tasks.
  obtain ⟨front, back, hlists⟩ := List.append_of_mem hview
  have hmemory := hat.memory.perm (hlists ▸ List.perm_middle)
  obtain ⟨reply, middle, hrun, changed, items, rest, hreply, halone, _, _, nodes, hmiddle, hitems,
    hsupply⟩ := (hmemory.perform_alone (hvalid first)).run 0
  obtain ⟨rfl, rfl, hrest⟩ := hfirst.unique halone
  obtain rfl := hrest rfl
  obtain ⟨reply', final, hrun', changed', items', rest', hreply', halone', _, _, nodes', hfinal,
    hitems', -⟩ := (hmiddle.perform_alone (hvalid !first)).run 0
  rw [ListView.items, hitems, hsupply] at halone'
  obtain ⟨rfl, hobject, -⟩ := hsecond.unique halone'
  rw [← (hthrough first).2] at hreply
  rw [← (hthrough !first).2] at hreply'
  subst hreply hreply'
  obtain ⟨other, hother, hheader, hshown⟩ := hcoupled.shown
  refine ⟨world.owner, world.views, world.lists, ?_, hcoupled.headers.trans hat.live, other, hother,
    hheader, first, middle, final, hrun, hrun', _, _, _, _, hfinal, _, List.mem_cons_self, rfl, ?_⟩
  · have hempty :
        inHand (fun context => stage target view.header calls context world.moves) = [] := by
      have hnone := fun context => Stage.block_of_over stage_suits (hthrough context).1
      rw [inHand, hnone, hnone]
      rfl
    have happ := hcoupled.app
    rw [hempty] at happ
    exact hshared.memory.perm_app happ
  · rw [ListView.items, hitems', ← hobject, hshown]

/-- From the state after any use of the module: in every interleaving of two
calls that search a list before they change it, no context is stuck, and when
both have returned all is as if one call had been made after the other. What is
asked of the run is that no context is about to change the list at a node that
its search would not find any more, and that none finds the block gone that it
has just made. -/
theorem locating_calls_serial {history : List ListExchange} {state : State}
    (hrun : (listInterface target).Run history state)
    (hsound : ∀ exchange ∈ history, exchange.request.BlockSize target.Sound)
    (hlist : list ∈ liveLists history)
    (hvalid : ∀ context, (calls context).operation.Valid)
    {config : ClientConfig Bool State Fault ListCall ListReply}
    (hreachable : (locatingClients target list calls).Reachable state config)
    (hfinds : FindsAgain target list calls config.moves)
    (hspare : FindsSpare target config.moves) :
    Clients.Live config ∧ ∀ replies : Bool → ListReply,
      (∀ context, (context, replies context) ∈ repliesIn config.moves) →
      EndsInOrder target list calls history state config.shared replies := by
  obtain ⟨owner, views, lists, hat⟩ := RunAt.of_run hrun hsound
  let world : World Bool := ⟨state, [], owner, views, lists, ownBlocks history, fun _ => none⟩
  have hshared : world.Shared target := ⟨hat.memory, fun _ _ hholder => by cases hholder⟩
  obtain ⟨view, hview, rfl⟩ := List.mem_map.mp (hat.live.mem_iff.mpr hlist)
  have hne := (hat.memory.holds _ (mem_blocksOf hview List.mem_cons_self)).ne_null
    hat.memory.pools.heap
  have hinv : LocatingAt target view.header calls world (view.items target state) world := by
    refine ⟨⟨_, .refl, ?_⟩, ?_, ?_⟩
    · exact ⟨fun _ => rfl, ⟨view, hview, rfl, rfl⟩, rfl, rfl, .refl _, .refl _, fun _ => rfl,
        fun _ _ _ => rfl, fun _ _ hunlinked => by cases hunlinked⟩
    · exact fun _ _ haim => by cases haim
    · exact fun _ _ hmem => by cases hmem
  obtain ⟨final, hagrees⟩ := (locating_sound hne hvalid).reachable ⟨hshared, hinv⟩ rfl
    (fun _ => trivial) hreachable ⟨hfinds, hspare⟩
  refine ⟨hagrees.live, fun replies hreplies => ?_⟩
  rw [← hagrees.moves] at hreplies
  rw [← hagrees.state]
  exact hagrees.inv.2.ends hat hview hvalid hagrees.inv.1 hreplies

/-- Two insertions at the same item. Both search before one of them goes on, and
each makes the block of its node. -/
def orderlyCalls : Bool → LocatingCall
  | true => .insertItemBefore 2 1
  | false => .insertItemAfter 3 1

def orderlySchedule : List (Bool × Clients.Choice ListCall) :=
  [(true, .call (.on 4224 (.insertItemBefore 2 1))), (true, .step),
    (false, .call (.on 4224 (.insertItemAfter 3 1))), (false, .step)] ++
    List.replicate 5 (true, .step) ++ List.replicate 5 (false, .step) ++
    List.replicate 5 (true, .step) ++ List.replicate 5 (false, .step) ++
    [(false, .finish), (true, .finish)]

theorem locating_calls_serial_orderly : ∃ history state config,
    (listInterface linux64).Run history state ∧
      (locatingClients linux64 4224 orderlyCalls).Reachable state config ∧
      Clients.Live config ∧
      EndsInOrder linux64 4224 orderlyCalls history state config.shared fun _ => .status .ok := by
  have hexecutes : ((listInterface linux64).execute [.on 4224 (.insertItemBack 1), .create]).map
      (fun outcome => decide (4224 ∈ liveLists outcome.1) &&
      ((locatingClients linux64 4224 orderlyCalls).schedule ⟨outcome.2, fun _ => none, []⟩
        orderlySchedule).any fun config =>
          decide (FindsAgain linux64 4224 orderlyCalls config.moves ∧
            FindsSpare linux64 config.moves ∧
            ∀ context, (context, .status .ok) ∈ repliesIn config.moves)) = some true := by
    decide +kernel
  obtain ⟨history, state, hrun, hrequests, hchecks⟩ := Interface.execute_map hexecutes
  obtain ⟨hlist, hschedule⟩ := Bool.and_eq_true_iff.mp hchecks
  obtain ⟨config, hconfig, hmeets⟩ := (Option.any_eq_true _ _).mp hschedule
  obtain ⟨hfinds, hspare, hreplies⟩ := of_decide_eq_true hmeets
  have hreachable := Clients.steps_of_schedule hconfig
  have hsound : ∀ request ∈ history.map Exchange.request, request.BlockSize linux64.Sound := by
    rw [hrequests]
    decide
  have hvalid : ∀ context, (orderlyCalls context).operation.Valid := by decide
  obtain ⟨hlive, hends⟩ := locating_calls_serial hrun (List.forall_mem_map.mp hsound)
    (of_decide_eq_true hlist) hvalid hreachable hfinds hspare
  exact ⟨history, state, config, hrun, hreachable, hlive, hends _ hreplies⟩

/-- Both contexts find the node of the only item. One unlinks and releases it,
and then the other does so once more. -/
def staleSchedule : List (Bool × Clients.Choice ListCall) :=
  [(true, .call (.on 4224 (.removeItem 1))), (true, .step),
    (false, .call (.on 4224 (.removeItem 1))), (false, .step), (true, .step), (true, .step),
    (true, .finish), (false, .step), (false, .step), (false, .finish)]

theorem locating_calls_not_serial : ∃ history state config,
    (listInterface linux64).Run history state ∧
      (∀ exchange ∈ history, exchange.request.BlockSize linux64.Sound) ∧
      4224 ∈ liveLists history ∧
      (locatingClients linux64 4224 fun _ => .removeItem 1).Reachable state config ∧
      (∀ context, (context, .none) ∈ repliesIn config.moves) ∧
      ¬ EndsInOrder linux64 4224 (fun _ => .removeItem 1) history state config.shared
        fun _ => .none := by
  have hexecutes : ((listInterface linux64).execute [.on 4224 (.insertItemBack 1), .create]).map
      (fun outcome => decide (4224 ∈ liveLists outcome.1) &&
      ((locatingClients linux64 4224 fun _ => .removeItem 1).schedule
        ⟨outcome.2, fun _ => none, []⟩ staleSchedule).any fun config =>
          decide ((∀ context, (context, .none) ∈ repliesIn config.moves) ∧
            config.shared.mem (linux64.field 4224 TbxList.nodeCount) = 2 ^ 64 - 1)) =
        some true := by
    decide +kernel
  obtain ⟨history, state, hrun, hrequests, hchecks⟩ := Interface.execute_map hexecutes
  obtain ⟨hlist, hschedule⟩ := Bool.and_eq_true_iff.mp hchecks
  obtain ⟨config, hconfig, hmoves⟩ := (Option.any_eq_true _ _).mp hschedule
  obtain ⟨hreplies, hcount⟩ := of_decide_eq_true hmoves
  have hsound : ∀ request ∈ history.map Exchange.request, request.BlockSize linux64.Sound := by
    rw [hrequests]
    decide
  refine ⟨history, state, config, hrun, List.forall_mem_map.mp hsound, of_decide_eq_true hlist,
    Clients.steps_of_schedule hconfig, hreplies, ?_⟩
  -- The count has wrapped, and no list has so many nodes.
  rintro ⟨owner, views, lists, hlists, -, view, hview, hheader, -⟩
  have hnodes := (hlists.shape view hview).count
  have hlength := (hlists.listCells hview).length_lt
  rw [hheader] at hnodes
  have hsame : 2 ^ 64 - 1 = view.nodes.length := hcount.symm.trans hnodes
  rw [← hsame] at hlength
  exact absurd hlength (by decide)

end MicroTbx

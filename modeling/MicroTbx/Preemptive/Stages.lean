import MicroTbx.List.Locating
import MicroTbx.Preemptive.Calls

/-! # The stages of calls that search before they change a list

How far a context has got with its call is told by the moves, together with
the node that its search found and the block that it has in hand. Both contexts
at their stages are coupled with a bench of located tasks.
-/

namespace MicroTbx

open Program

/-- How far a context has got. An insertion has a node of the list located and
then a new one in hand; a removal has a node targeted and then unlinked. -/
inductive Stage
  | waiting
  | missed
  | located (node : Nat)
  | refused (node : Nat)
  | awaiting (node : Nat)
  | failed
  | holding (node new : Nat)
  | linked
  | targeted (node : Nat)
  | unlinked (node : Nat)
  | removed
  deriving DecidableEq

namespace Stage

def phase : Stage → Located.Phase
  | .waiting => .waiting
  | .missed => .missed
  | .located _ | .targeted _ => .located
  | .refused _ => .refused
  | .awaiting _ => .awaiting
  | .failed => .failed
  | .holding _ _ => .holding
  | .linked | .unlinked _ => .changed
  | .removed => .added

/-- The node that the context found and is about to change the list at. -/
def aim : Stage → Option Nat
  | .holding node _ | .targeted node => some node
  | _ => none

/-- The block that the context has in hand. -/
def block : Stage → Option Nat
  | .holding _ new => some new
  | .unlinked node => some node
  | _ => none

/-- The context has used the pools. -/
def Touched : Stage → Prop
  | .waiting | .missed | .located _ | .targeted _ | .unlinked _ => False
  | .refused _ | .awaiting _ | .failed | .holding _ _ | .linked | .removed => True

/-- Calls of this kind can be at this stage. -/
def Suits (removes : Bool) : Stage → Prop
  | .waiting | .missed => True
  | .located _ | .refused _ | .awaiting _ | .failed | .holding _ _ | .linked => removes = false
  | .targeted _ | .unlinked _ | .removed => removes = true

theorem not_touched {stage : Stage} (huntouched : stage.phase.Untouched) : ¬ stage.Touched := by
  cases stage <;> simp_all [phase, Touched, Located.Phase.Untouched]

/-- A context that is through with its call has no block in hand. -/
theorem block_of_over {stage : Stage} {removes : Bool} (hsuits : stage.Suits removes)
    (hover : stage.phase.Over removes) : stage.block = none := by
  cases stage with
  | holding => simp [phase, Located.Phase.Over, show removes = false from hsuits] at hover
  | unlinked => simp [phase, Located.Phase.Over, show removes = true from hsuits] at hover
  | _ => rfl

end Stage

/-- The block that a step has handed out. -/
def newBlock (before after : State) : Option Nat :=
  if handedOut after.log = handedOut before.log then none else (handedOut after.log).head?

/-- The stage after a search. -/
def searched (call : LocatingCall) (node : Nat) : Stage :=
  if node = null then .missed else if call.removes then .targeted node else .located node

section Definitions

variable (target : Target) (list : Nat)

/-- The stage that a step of the call leads to. -/
def Stage.next (call : LocatingCall) (before after : State) : Stage → Stage
  | .waiting => searched call (foundNode target list call.reference before)
  | .located node =>
      match newBlock before after with
      | some new => .holding node new
      | none => .refused node
  | .refused node =>
      if blocksAdded (3 * target.word) after.log = blocksAdded (3 * target.word) before.log then
        .failed
      else .awaiting node
  | .awaiting node =>
      match newBlock before after with
      | some new => .holding node new
      | none => .failed
  | .holding node new =>
      if after.mem (target.field list TbxList.nodeCount) =
          before.mem (target.field list TbxList.nodeCount) then .holding node new
      else .linked
  | .targeted node => .unlinked node
  | .unlinked _ => .removed
  | stage => stage

variable (calls : Bool → LocatingCall)

/-- How far a context has got after some moves. -/
def stage (context : Bool) : ListMoves Bool → Stage
  | [] => .waiting
  | (other, .stepped _ before after) :: earlier =>
      if other = context then (stage context earlier).next target list (calls context) before after
      else stage context earlier
  | _ :: earlier => stage context earlier

/-- After every step, a context that is about to change the list at the node
that it found would find that node again. -/
def FindsAgain : ListMoves Bool → Prop
  | [] => True
  | (context, .stepped request before after) :: earlier =>
      (∀ other, ∀ node ∈ (stage target list calls other
        ((context, .stepped request before after) :: earlier)).aim,
          foundNode target list (calls other).reference after = node) ∧ FindsAgain earlier
  | _ :: earlier => FindsAgain earlier

instance decidableFindsAgain :
    (moves : ListMoves Bool) → Decidable (FindsAgain target list calls moves)
  | [] => inferInstanceAs (Decidable True)
  | (_, .stepped _ _ _) :: earlier =>
      have := decidableFindsAgain earlier
      inferInstanceAs (Decidable (_ ∧ _))
  | (_, .called _) :: earlier => decidableFindsAgain earlier
  | (_, .returned _ _) :: earlier => decidableFindsAgain earlier

end Definitions

/-- The blocks that the contexts have in hand. -/
def inHand (stages : Bool → Stage) : List Nat :=
  (stages true).block.toList ++ (stages false).block.toList

section Definitions

variable (target : Target) (list : Nat) (calls : Bool → LocatingCall) (start : World Bool)

/-- The calls as tasks. -/
def locatingTasks : Bool → Located.Task (List Nat) := fun context => (calls context).task

/-- What a removal adds to the stock when it is the first call that does
anything. -/
def locatingGain (context : Bool) : Nat :=
  foundGain target list (calls context).reference start.state start.views

/-- The contexts at their stages have made of the lists and pools what the bench
tells. -/
structure Coupled (world : World Bool) (stages : Bool → Stage)
    (bench : Located.Bench (List Nat)) : Prop where
  phase : ∀ context, bench.phase context = (stages context).phase
  shown : ∃ view ∈ world.lists, view.header = list ∧
    view.items target world.state = bench.object
  stock : stock world.views (3 * target.word) = bench.stock
  makeable : makeable target world.views (3 * target.word) world.state = bench.makeable
  app : world.app.Perm (inHand stages ++ start.app)
  headers : (world.lists.map ListView.header).Perm (start.lists.map ListView.header)
  views : (∀ context, ¬ (stages context).Touched) → world.views = start.views
  found : bench.order = [] → ∀ item, item ≠ null →
    foundNode target list item world.state = foundNode target list item start.state
  first : ∀ context node, stages context = .unlinked node → bench.order = [context] →
    node = foundNode target list (calls context).reference start.state

end Definitions

variable {target : Target} {list node data item : Nat} {calls : Bool → LocatingCall}
  {context other : Bool} {stages : Bool → Stage} {later : Stage} {moves : ListMoves Bool}
  {request : ListCall} {before after : State} {start world next : World Bool}
  {bench coming : Located.Bench (List Nat)} {view : ListView} {rest : List ListView}
  {nodes : List Nat} {move : ListMove}

/-! ## Stages -/

theorem stage_of_other (hother : other ≠ context) :
    stage target list calls context ((other, move) :: moves) =
      stage target list calls context moves := by
  cases move with
  | stepped => exact if_neg hother
  | called => rfl
  | returned => rfl

theorem stage_stepped :
    stage target list calls context ((context, .stepped request before after) :: moves) =
      (stage target list calls context moves).next target list (calls context) before after :=
  if_pos rfl

theorem searched_suits (call : LocatingCall) (node : Nat) :
    (searched call node).Suits call.removes := by
  unfold searched
  split
  · trivial
  · cases hremoves : call.removes <;> exact rfl

theorem Stage.next_suits {now : Stage} {call : LocatingCall} (hsuits : now.Suits call.removes) :
    (now.next target list call before after).Suits call.removes := by
  cases now with
  | waiting => exact searched_suits _ _
  | located | refused | awaiting | holding =>
      rw [next]
      split <;> exact hsuits
  | _ => exact hsuits

theorem stage_suits :
    (stage target list calls context moves).Suits (calls context).removes := by
  induction moves with
  | nil => trivial
  | cons move earlier ih =>
      obtain ⟨other, move⟩ := move
      by_cases hother : other = context
      · subst hother
        cases move with
        | stepped =>
            rw [stage_stepped]
            exact Stage.next_suits ih
        | called => exact ih
        | returned => exact ih
      · rw [stage_of_other hother]
        exact ih

/-- A step changes the stage of the context that makes it. -/
theorem stages_stepped :
    (fun other => stage target list calls other
      ((context, .stepped request before after) :: moves)) =
      Function.update (fun other => stage target list calls other moves) context
        ((stage target list calls context moves).next target list (calls context) before after) := by
  funext other
  by_cases heq : other = context
  · subst heq
    rw [Function.update_self, stage_stepped]
  · rw [Function.update_of_ne heq, stage_of_other (Ne.symm heq)]

/-- A search hands out nothing and leaves the pools alone. -/
theorem searched_block (call : LocatingCall) (node : Nat) : (searched call node).block = none := by
  unfold searched
  split
  · rfl
  · split <;> rfl

theorem searched_ne_unlinked (call : LocatingCall) (node other : Nat) :
    searched call node ≠ .unlinked other := by
  intro heq
  have hblock := searched_block call node
  rw [heq] at hblock
  cases hblock

theorem newBlock_none (hsame : handedOut after.log = handedOut before.log) :
    newBlock before after = none := if_pos hsame

theorem newBlock_some (hout : handedOut after.log = data :: handedOut before.log) :
    newBlock before after = some data := by
  rw [newBlock, if_neg, hout, List.head?_cons]
  rw [hout]
  exact fun heq => List.cons_ne_self _ _ heq

/-! ## Blocks in hand -/

theorem inHand_keep (hblock : later.block = (stages context).block) :
    inHand (Function.update stages context later) = inHand stages := by
  cases context <;> simp [inHand, Function.update, hblock]

/-- A context gets a block in hand. -/
theorem inHand_take (hnone : (stages context).block = none) (hblock : later.block = some data) :
    (inHand (Function.update stages context later)).Perm (data :: inHand stages) := by
  cases context with
  | false =>
      simp only [inHand, Function.update_self, hblock, hnone, Option.toList_some,
        Option.toList_none, List.append_nil]
      exact List.perm_append_singleton _ _
  | true =>
      simp only [inHand, Function.update_self, hblock, hnone, Option.toList_some,
        Option.toList_none]
      exact .refl _

/-- A context lets go of the block that it has in hand. -/
theorem inHand_give (hblock : (stages context).block = some data) (hnone : later.block = none) :
    (inHand stages).Perm (data :: inHand (Function.update stages context later)) := by
  have hback := @inHand_take data context (Function.update stages context later) (stages context)
  rw [Function.update_self, Function.update_idem, Function.update_eq_self] at hback
  exact hback hnone hblock

/-- A search finds the same node while the lists stay as they are. -/
theorem KeepsLists.foundNode_eq (hkeeps : KeepsLists target world next)
    (hshared : world.Shared target) (hnext : next.Shared target) (hview : view ∈ world.lists)
    (hitem : item ≠ null) :
    foundNode target view.header item next.state =
      foundNode target view.header item world.state := by
  apply hnext.memory.foundNode_eq (hkeeps.lists ▸ hview) hitem
  apply (hshared.memory.found hview hitem).congr
  intro data hdata
  exact hkeeps.cells data (mem_blocksOf hview (List.mem_cons_of_mem _ hdata)) _ (by norm_num)

namespace Coupled

/-! ## What steps do to the coupling -/

theorem phase_update {phase : Located.Phase}
    (hcoupled : Coupled target list calls start world stages bench) (hphase : later.phase = phase) :
    ∀ other, Function.update bench.phase context phase other =
      (Function.update stages context later other).phase := by
  intro other
  by_cases heq : other = context
  · subst heq
    rw [Function.update_self, Function.update_self, hphase]
  · rw [Function.update_of_ne heq, Function.update_of_ne heq]
    exact hcoupled.phase other

/-- Nobody else has used the pools either, unless the context does so now. -/
theorem views_update (hcoupled : Coupled target list calls start world stages bench)
    (hviews : later.Touched ∨ ¬ (stages context).Touched ∧ next.views = world.views) :
    (∀ other, ¬ (Function.update stages context later other).Touched) →
      next.views = start.views := by
  intro huntouched
  have hself := huntouched context
  rw [Function.update_self] at hself
  obtain ⟨hnot, hsame⟩ := hviews.resolve_left hself
  rw [hsame]
  apply hcoupled.views
  intro other
  by_cases heq : other = context
  · exact heq ▸ hnot
  · have hother := huntouched other
    rwa [Function.update_of_ne heq] at hother

/-- A step that leaves the lists alone. -/
theorem keep (hcoupled : Coupled target list calls start world stages bench)
    (hshared : world.Shared target) (hnext : next.Shared target)
    (hkeeps : KeepsLists target world next)
    (hobject : coming.object = bench.object) (horder : coming.order = bench.order)
    (hphase : coming.phase = Function.update bench.phase context later.phase)
    (hstock : MicroTbx.stock next.views (3 * target.word) = coming.stock)
    (hmakeable : MicroTbx.makeable target next.views (3 * target.word) next.state = coming.makeable)
    (happ : next.app.Perm (inHand (Function.update stages context later) ++ start.app))
    (hviews : later.Touched ∨ ¬ (stages context).Touched ∧ next.views = world.views)
    (hlater : ∀ node, later ≠ .unlinked node) :
    Coupled target list calls start next (Function.update stages context later) coming := by
  have hviewsUpdate := hcoupled.views_update hviews
  obtain ⟨view, hview, rfl, hitems⟩ := hcoupled.shown
  have hnextView : view ∈ next.lists := hkeeps.lists ▸ hview
  refine ⟨?_, ⟨view, hnextView, rfl, ?_⟩, hstock, hmakeable, happ, ?_, hviewsUpdate, ?_, ?_⟩
  · rw [hphase]
    exact hcoupled.phase_update rfl
  · rw [ListView.items, hkeeps.cells.items hview, hobject]
    exact hitems
  · rw [hkeeps.lists]
    exact hcoupled.headers
  · rw [horder]
    intro hnone item hitem
    rw [← hcoupled.found hnone item hitem]
    exact hkeeps.foundNode_eq hshared hnext hview hitem
  · rw [horder]
    intro other node hunlinked
    by_cases heq : other = context
    · rw [heq, Function.update_self] at hunlinked
      exact absurd hunlinked (hlater node)
    · rw [Function.update_of_ne heq] at hunlinked
      exact hcoupled.first other node hunlinked

/-- A step that changes the list. -/
theorem relink (hcoupled : Coupled target list calls start world stages bench)
    (hperm : world.lists.Perm (view :: rest)) (hheader : view.header = list)
    (hrelinks : Relinks target context request world rest view nodes after next)
    (hitems : itemsOf (cellsOf target next.state.mem) nodes =
      (calls context).task.change bench.object)
    (hphase : later.phase = .changed) (hsame : next.views = world.views)
    (hallocated : next.state.tbxHeapAllocated = world.state.tbxHeapAllocated)
    (happ : next.app.Perm (inHand (Function.update stages context later) ++ start.app))
    (hviews : later.Touched ∨ ¬ (stages context).Touched ∧ next.views = world.views)
    (hfirst : ∀ node, later = .unlinked node →
      foundNode target list (calls context).reference world.state = node ∧
        (calls context).reference ≠ null) :
    Coupled target list calls start next (Function.update stages context later)
      { bench.enter context .changed with
        object := (calls context).task.change bench.object, order := context :: bench.order } := by
  have hlists := hrelinks.lists
  refine ⟨hcoupled.phase_update hphase, ⟨⟨view.header, nodes⟩, hlists ▸ List.mem_cons_self, hheader,
    hitems⟩, ?_, ?_, happ, ?_, hcoupled.views_update hviews, ?_, ?_⟩
  · rw [hsame]
    exact hcoupled.stock
  · rw [hsame, makeable_same hallocated]
    exact hcoupled.makeable
  · rw [hlists]
    exact (hperm.map ListView.header).symm.trans hcoupled.headers
  · exact fun hnone => absurd hnone (List.cons_ne_nil _ _)
  · dsimp only
    intro other node hunlinked horder
    obtain ⟨rfl, hnone⟩ := List.cons.inj horder
    rw [Function.update_self] at hunlinked
    obtain ⟨hfound, href⟩ := hfirst node hunlinked
    rw [← hcoupled.found hnone _ href, hfound]

/-- A step that takes a block from the stock. -/
theorem takes (hcoupled : Coupled target list calls start world stages bench)
    (hshared : world.Shared target) (hblock : (stages context).block = none)
    (hadvances : Advances target context request world after next)
    (htakes : Takes target world.views world.state (3 * target.word) data next.views after)
    (happ : next.app = data :: world.app) :
    ∃ left, bench.stock = left + 1 ∧ newBlock world.state after = some data ∧
      Coupled target list calls start next (Function.update stages context (.holding node data))
        { bench.enter context .holding with stock := left } := by
  obtain ⟨hmoves, hkeeps, rfl⟩ := hadvances
  have hpools := hshared.memory.pools
  obtain ⟨hstock, hmakeable⟩ := htakes.supply hpools
  obtain ⟨-, -, hout, -⟩ := htakes.pools hpools
  refine ⟨MicroTbx.stock next.views (3 * target.word), ?_, newBlock_some hout, ?_⟩
  · rw [hstock, hcoupled.stock]
  refine hcoupled.keep hshared hmoves.shared hkeeps rfl rfl rfl rfl ?_ ?_ (.inl trivial)
    (fun _ heq => by cases heq)
  · rw [hmakeable]
    exact hcoupled.makeable
  · rw [happ]
    exact (hcoupled.app.cons data).trans ((inHand_take hblock rfl).symm.append_right _)

/-- What is left of the application's blocks when one in hand goes. -/
theorem app_erase (hcoupled : Coupled target list calls start world stages bench)
    (hblock : (stages context).block = some data) (hnone : later.block = none) :
    (world.app.erase data).Perm (inHand (Function.update stages context later) ++ start.app) := by
  have hperm := hcoupled.app.trans ((inHand_give hblock hnone).append_right _)
  have herase := hperm.erase data
  rwa [List.cons_append, List.erase_cons_head] at herase

end Coupled

end MicroTbx

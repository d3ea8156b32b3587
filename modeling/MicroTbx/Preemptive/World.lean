import MicroTbx.Foundation.Interleaving
import MicroTbx.List.Refinement

/-! # Lists and pools shared by contexts

Between its steps a context holds blocks that are in no list: a node that it
allocated and did not link yet, or unlinked and did not release yet, and the
blocks of the application. A world records who holds which block. A step of one
context leaves alone what the others hold.
-/

namespace MicroTbx

open Program

abbrev ListMove := ClientMove State ListCall ListReply

abbrev ListMoves (Context : Type) := List (Context × ListMove)

/-- The shared state, what the invariants tell of it, and the holders of the
blocks that are in no list. -/
structure World (Context : Type) where
  state : State
  moves : ListMoves Context
  owner : Ownership
  views : List PoolView
  lists : List ListView
  app : List Nat
  holder : Nat → Option Context

/-- A step of a context to another state, and what the world tells of that. -/
@[simps]
def World.stepped {Context : Type} (world : World Context) (context : Context)
    (request : ListCall) (after : State) (owner : Ownership) (views : List PoolView)
    (lists : List ListView) (app : List Nat) (holder : Nat → Option Context) : World Context where
  state := after
  moves := (context, .stepped request world.state after) :: world.moves
  owner := owner
  views := views
  lists := lists
  app := app
  holder := holder

/-- A call or a return, which no step of the code belongs to. -/
@[simps]
def World.recorded {Context : Type} (world : World Context) (context : Context)
    (move : ListMove) : World Context :=
  { world with moves := (context, move) :: world.moves }

/-- A move is what happened to the state. -/
def Recorded (move : ListMove) (state after : State) : Prop :=
  match move with
  | .stepped _ before later => before = state ∧ later = after
  | _ => after = state

section Definitions

variable {Context : Type} (target : Target)

/-- The lists and pools are as they should be between any two steps. -/
structure World.Shared (world : World Context) : Prop where
  memory : ListsAt target world.owner world.views world.lists world.app world.state
  held : ∀ data context, world.holder data = some context → data ∈ world.app

/-- What another context did leaves alone what a context holds. -/
structure Respects (context : Context) (world next : World Context) : Prop where
  moved : ∃ other move, other ≠ context ∧ next.moves = (other, move) :: world.moves ∧
    Recorded move world.state next.state
  owners : ∀ address part, world.owner address = some part → next.owner address = some part
  holder : ∀ data, next.holder data = some context ↔ world.holder data = some context
  cells : ∀ data, world.holder data = some context → Holds target world.owner data → ∀ i < 3,
    cellsOf target next.state.mem data i = cellsOf target world.state.mem data i

/-- A move of a context, as all others see it. -/
structure Moves (context : Context) (move : ListMove) (world next : World Context) : Prop where
  moves : next.moves = (context, move) :: world.moves
  recorded : Recorded move world.state next.state
  shared : next.Shared target
  owners : ∀ address part, world.owner address = some part → next.owner address = some part
  holder : ∀ other, other ≠ context → ∀ data,
    next.holder data = some other ↔ world.holder data = some other
  cells : ∀ other, other ≠ context → ∀ data, world.holder data = some other →
    Holds target world.owner data → ∀ i < 3,
    cellsOf target next.state.mem data i = cellsOf target world.state.mem data i

/-- The lists are as they were. -/
structure KeepsLists (world next : World Context) : Prop where
  lists : next.lists = world.lists
  cells : SameCells (cellsOf target world.state.mem) (cellsOf target next.state.mem) world.lists

/-- Nothing but cells was changed. -/
structure Still (world next : World Context) : Prop where
  views : next.views = world.views
  app : next.app = world.app
  holder : next.holder = world.holder
  allocated : next.state.tbxHeapAllocated = world.state.tbxHeapAllocated

/-- A context holds a node whose members are known as far as the facts tell. -/
structure OwnsNode (context : Context) (node : Nat) (facts : Nat → Option Nat)
    (world : World Context) : Prop where
  holder : world.holder node = some context
  holds : Holds target world.owner node
  facts : ∀ i < 3, ∀ value, facts i = some value → cellsOf target world.state.mem node i = value

/-- What a use of the module adds to the discipline: an invariant, what the
contexts rely on, the runs that are looked at, and what the contexts know
between requests. -/
structure Usage (Context : Type) where
  inv : World Context → Prop
  rely : Context → World Context → World Context → Prop
  meets : ListMoves Context → Prop
  idle : Context → World Context → Prop
  done : Context → ListCall → ListReply → World Context → Prop

/-- The discipline that contexts follow in a use of the module. -/
def Usage.discipline (usage : Usage Context) :
    Discipline Context State ListCall ListReply (World Context) where
  state := World.state
  moves := World.moves
  inv := fun world => world.Shared target ∧ usage.inv world
  rely := fun context world next => Respects target context world next ∧
    usage.rely context world next
  meets := usage.meets
  idle := usage.idle
  done := usage.done

/-- Steps that leave the lists alone matter to no other context. -/
def Usage.Private (usage : Usage Context) : Prop :=
  ∀ context request world next, Moves target context (.stepped request world.state next.state)
    world next → KeepsLists target world next → world.Shared target → usage.inv world →
    usage.inv next ∧ ∀ other, other ≠ context → usage.rely other world next

/-- Knowledge of a context that survives what others do and its own steps that
leave the lists alone and release nothing. -/
structure Lasting (usage : Usage Context) (context : Context) (frame : World Context → Prop) :
    Prop where
  stable : (usage.discipline target).Stable context frame
  own : ∀ request world next, frame world → usage.inv world →
    Moves target context (.stepped request world.state next.state) world next →
    KeepsLists target world next →
    (∀ data, world.holder data = some context → next.holder data = some context) → frame next

/-- Knowledge of a context that survives what others do, and under which the
context may write to a node in hand. -/
structure Shelters (usage : Usage Context) (context : Context) (frame : World Context → Prop) :
    Prop where
  stable : (usage.discipline target).Stable context frame
  own : ∀ request world next, frame world → (usage.discipline target).inv world →
    Moves target context (.stepped request world.state next.state) world next →
    KeepsLists target world next → Still world next →
    (usage.discipline target).Makes context (.stepped request world.state next.state) world next ∧
      frame next

end Definitions

variable {Context : Type} {target : Target} {context other : Context} {move : ListMove}
  {request : ListCall} {world next : World Context} {node data : Nat} {facts : Nat → Option Nat}
  {usage : Usage Context} {larger : Ownership} {others : List PoolView} {app : List Nat}
  {after : State}

/-! ## Moves -/

namespace Moves

theorem respects (hmoves : Moves target context move world next) (hother : other ≠ context) :
    Respects target other world next where
  moved := ⟨context, move, Ne.symm hother, hmoves.moves, hmoves.recorded⟩
  owners := hmoves.owners
  holder := hmoves.holder other hother
  cells := hmoves.cells other hother

theorem makes (hmoves : Moves target context move world next) (hinv : usage.inv next)
    (hrely : ∀ other, other ≠ context → usage.rely other world next) :
    (usage.discipline target).Makes context move world next where
  moves := hmoves.moves
  inv := ⟨hmoves.shared, hinv⟩
  rely := fun other hother => ⟨hmoves.respects hother, hrely other hother⟩

/-- A step that leaves the lists alone keeps to the discipline. -/
theorem makes_private {request : ListCall}
    (hmoves : Moves target context (.stepped request world.state next.state) world next)
    (hkeeps : KeepsLists target world next) (hprivate : usage.Private target)
    (hinv : (usage.discipline target).inv world) :
    (usage.discipline target).Makes context (.stepped request world.state next.state) world
      next := by
  obtain ⟨hnext, hrely⟩ := hprivate context request world next hmoves hkeeps hinv.1 hinv.2
  exact hmoves.makes hnext hrely

end Moves

/-- Calls and returns change nothing but the record of moves. -/
theorem World.Shared.moves_record (hshared : world.Shared target)
    (hrecorded : Recorded move world.state world.state) :
    Moves target context move world (world.recorded context move) where
  moves := rfl
  recorded := hrecorded
  shared := ⟨hshared.memory, hshared.held⟩
  owners := fun _ _ howner => howner
  holder := fun _ _ _ => Iff.rfl
  cells := fun _ _ _ _ _ _ _ => rfl

/-- A new block is held by the context that was given it. -/
theorem World.Shared.moves_take (hshared : world.Shared target) (context : Context)
    (request : ListCall)
    (hlists : ListsAt target larger others world.lists (data :: world.app) after)
    (hkept : Kept world.owner larger world.state after) :
    let next := world.stepped context request after larger others world.lists (data :: world.app)
      (Function.update world.holder data (some context))
    Moves target context (.stepped request world.state after) world next ∧
      next.holder data = some context ∧ world.holder data ≠ some context ∧
      ∀ other, world.holder other = some context → next.holder other = some context := by
  have hfresh : ∀ holder, world.holder data ≠ some holder := by
    intro holder hholder
    have hnodup := (List.nodup_append.mp hlists.nodup).2.1
    exact (List.nodup_cons.mp hnodup).1 (hshared.held data holder hholder)
  refine ⟨⟨rfl, ⟨rfl, rfl⟩, ⟨hlists, ?_⟩, hkept.owners, ?_, ?_⟩, Function.update_self ..,
    hfresh context, ?_⟩
  · intro other holder hholder
    dsimp only [World.stepped] at hholder ⊢
    by_cases heq : other = data
    · exact heq ▸ List.mem_cons_self
    · rw [Function.update_of_ne heq] at hholder
      exact List.mem_cons_of_mem _ (hshared.held other holder hholder)
  · intro other hother block
    dsimp only [World.stepped]
    by_cases heq : block = data
    · subst heq
      rw [Function.update_self]
      exact iff_of_false (fun hsame => hother (Option.some.inj hsame).symm) (hfresh other)
    · rw [Function.update_of_ne heq]
  · intro other hother block hholder hholds i hi
    obtain ⟨_, _, -, howner⟩ := hholds
    exact hkept.data _ _ _ (howner i hi) trivial
  · intro other hother
    dsimp only [World.stepped]
    by_cases heq : other = data
    · exact absurd (heq ▸ hother) (hfresh context)
    · rw [Function.update_of_ne heq]
      exact hother

/-- A block is given back by the context that held it. -/
theorem World.Shared.moves_give (hshared : world.Shared target) (request : ListCall)
    (hlists : ListsAt target larger others world.lists (world.app.erase data) after)
    (hkept : Kept world.owner larger world.state after) (hdata : world.holder data = some context) :
    let next := world.stepped context request after larger others world.lists
      (world.app.erase data) (Function.update world.holder data none)
    Moves target context (.stepped request world.state after) world next ∧
      ∀ other, other ≠ data → next.holder other = world.holder other := by
  refine ⟨⟨rfl, ⟨rfl, rfl⟩, ⟨hlists, ?_⟩, hkept.owners, ?_, ?_⟩, ?_⟩
  · intro other holder hholder
    dsimp only [World.stepped] at hholder ⊢
    by_cases heq : other = data
    · subst heq
      rw [Function.update_self] at hholder
      cases hholder
    · rw [Function.update_of_ne heq] at hholder
      exact (List.mem_erase_of_ne heq).mpr (hshared.held other holder hholder)
  · intro other hother block
    dsimp only [World.stepped]
    by_cases heq : block = data
    · subst heq
      rw [Function.update_self, hdata]
      exact iff_of_false (by simp) fun hsame => hother (Option.some.inj hsame).symm
    · rw [Function.update_of_ne heq]
  · intro other hother block hholder hholds i hi
    obtain ⟨_, _, -, howner⟩ := hholds
    exact hkept.data _ _ _ (howner i hi) trivial
  · exact fun other heq => Function.update_of_ne heq _ _

/-- Nothing is given to a context or taken from it by a pool function that makes
blocks. -/
theorem World.Shared.moves_pool (hshared : world.Shared target) (context : Context)
    (request : ListCall)
    (hlists : ListsAt target larger others world.lists world.app after)
    (hkept : Kept world.owner larger world.state after) :
    Moves target context (.stepped request world.state after) world
      (world.stepped context request after larger others world.lists world.app
        world.holder) where
  moves := rfl
  recorded := ⟨rfl, rfl⟩
  shared := ⟨hlists, hshared.held⟩
  owners := hkept.owners
  holder := fun _ _ _ => Iff.rfl
  cells := by
    intro other hother block hholder hholds i hi
    obtain ⟨_, _, -, howner⟩ := hholds
    exact hkept.data _ _ _ (howner i hi) trivial

/-- A node that is in no list can be written to. -/
theorem ListsAt.scribble {owner : Ownership} {views : List PoolView} {lists : List ListView}
    {state : State} {cells : Cells} (hlists : ListsAt target owner views lists app state)
    (hnode : node ∈ app) (hholds : Holds target owner node)
    (hedited : Edited target node [node] state after cells) :
    ListsAt target owner views lists app after ∧
      ∀ data, data ≠ node → Holds target owner data → ∀ i < 3,
        cellsOf target after.mem data i = cellsOf target state.mem data i := by
  have hself : ∀ pointer ∈ [node, node], pointer = node := by simp
  have hcells : ∀ data, data ≠ node → Holds target owner data → ∀ i < 3,
      cellsOf target after.mem data i = cellsOf target state.mem data i := by
    intro data hne hdata i hi
    apply hedited.frame
    intro pointer hpointer j hj heq
    obtain rfl := hself pointer hpointer
    exact hne (hdata.field_inj hholds hi hj heq).1
  have hsame : SameCells (cellsOf target state.mem) (cellsOf target after.mem) lists := by
    intro data hdata
    have hne := (List.nodup_append.mp hlists.nodup).2.2 data hdata node hnode
    exact hcells data hne (hlists.holds data hdata)
  refine ⟨hlists.sameCells (hedited.pools hlists.pools ?_) (fun _ _ howner => howner) hsame ?_,
    hcells⟩
  · intro data hdata
    rw [hself data hdata]
    exact hholds
  · rw [hedited.handedOut_eq]
    exact hlists.out

/-- A context writes to a node that it holds. -/
theorem World.Shared.moves_scribble {cells : Cells} (hshared : world.Shared target)
    (request : ListCall)
    (hnode : world.holder node = some context) (hholds : Holds target world.owner node)
    (hedited : Edited target node [node] world.state after cells) :
    let next := world.stepped context request after world.owner world.views world.lists world.app
      world.holder
    Moves target context (.stepped request world.state after) world next ∧
      KeepsLists target world next := by
  have happ := hshared.held node context hnode
  obtain ⟨hlists, hcells⟩ := hshared.memory.scribble happ hholds hedited
  refine ⟨⟨rfl, ⟨rfl, rfl⟩, ⟨hlists, hshared.held⟩, fun _ _ howner => howner, fun _ _ _ => Iff.rfl,
    ?_⟩, ⟨rfl, ?_⟩⟩
  · intro other hother data hdata
    apply hcells data
    rintro rfl
    exact hother (Option.some.inj (hdata.symm.trans hnode))
  · intro data hdata
    have hne := (List.nodup_append.mp hshared.memory.nodup).2.2 data hdata node happ
    exact hcells data hne (hshared.memory.holds data hdata)

/-! ## Knowledge that lasts -/

theorem OwnsNode.stable :
    (usage.discipline target).Stable context (OwnsNode target context node facts) := by
  rintro world next ⟨hholder, hholds, hfacts⟩ - - - ⟨hrespects, -⟩
  refine ⟨(hrespects.holder node).mpr hholder, hholds.mono hrespects.owners, ?_⟩
  intro i hi value hvalue
  rw [hrespects.cells node hholder hholds i hi]
  exact hfacts i hi value hvalue

theorem stable_and {first second : World Context → Prop}
    (hfirst : (usage.discipline target).Stable context first)
    (hsecond : (usage.discipline target).Stable context second) :
    (usage.discipline target).Stable context fun world => first world ∧ second world :=
  fun world next hworld hinv hnext hmeets hrely =>
    ⟨hfirst world next hworld.1 hinv hnext hmeets hrely,
      hsecond world next hworld.2 hinv hnext hmeets hrely⟩

theorem stable_holder {usage : Usage Context} {data : Nat} :
    (usage.discipline target).Stable context fun world => world.holder data = some context :=
  fun _ _ hholder _ _ _ hrely => (hrely.1.holder _).mpr hholder

theorem Lasting.and {first second : World Context → Prop}
    (hfirst : Lasting target usage context first) (hsecond : Lasting target usage context second) :
    Lasting target usage context fun world => first world ∧ second world where
  stable := stable_and hfirst.stable hsecond.stable
  own := fun request world next hworld hinv hmoves hkeeps hheld =>
    ⟨hfirst.own request world next hworld.1 hinv hmoves hkeeps hheld,
      hsecond.own request world next hworld.2 hinv hmoves hkeeps hheld⟩

theorem Lasting.shelters {frame : World Context → Prop} (hframe : Lasting target usage context frame)
    (hprivate : usage.Private target) : Shelters target usage context frame where
  stable := hframe.stable
  own := fun request world next hworld hinv hmoves hkeeps hsame =>
    ⟨hmoves.makes_private hkeeps hprivate hinv, hframe.own request world next hworld hinv.2 hmoves
      hkeeps fun _ hdata => hsame.holder ▸ hdata⟩

end MicroTbx

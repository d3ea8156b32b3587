import MicroTbx.Preemptive.Steps
import MicroTbx.List.Demand

/-! # Calls made of several steps

An allocation that grows a pool on demand creates a block in one section and
takes it in a later one. In between the block is free for every context. What
the contexts know of a call is told by their moves: whether it has added a
block, and whether it is about to take one.
-/

namespace MicroTbx

open Program

section Definitions

variable {Context : Type} [DecidableEq Context] (target : Target) (context : Context) (size : Nat)

/-- The request that the context is at has added a block of the size. -/
def created : ListMoves Context → Prop
  | [] => False
  | (other, move) :: earlier =>
      if other = context then
        match move with
        | .stepped _ before after =>
            blocksAdded size after.log ≠ blocksAdded size before.log ∨ created earlier
        | _ => False
      else created earlier

instance decidableCreated : (moves : ListMoves Context) → Decidable (created context size moves)
  | [] => inferInstanceAs (Decidable False)
  | (other, .stepped _ _ _) :: earlier =>
      have := decidableCreated earlier
      inferInstanceAs (Decidable (if other = context then _ ∨ _ else _))
  | (other, .called _) :: earlier =>
      have := decidableCreated earlier
      inferInstanceAs (Decidable (if other = context then False else _))
  | (other, .returned _ _) :: earlier =>
      have := decidableCreated earlier
      inferInstanceAs (Decidable (if other = context then False else _))

/-- The size of the block that the context is going to take because its last
step added one. -/
def awaited : ListMoves Context → Option Nat
  | [] => none
  | (other, move) :: earlier =>
      if other = context then
        match move with
        | .stepped request before after => (request.demand target).filter fun size =>
            decide (blocksAdded size after.log ≠ blocksAdded size before.log)
        | _ => none
      else awaited earlier

/-- Whenever a context comes to take the block that it has just added to a pool,
a block of that pool is free. -/
def FindsSpare : ListMoves Context → Prop
  | [] => True
  | (context, .stepped _ before _) :: earlier =>
      (∀ size ∈ awaited target context earlier, ¬ AllAllocated target size before) ∧
        FindsSpare earlier
  | _ :: earlier => FindsSpare earlier

instance decidableFindsSpare : (moves : ListMoves Context) → Decidable (FindsSpare target moves)
  | [] => inferInstanceAs (Decidable True)
  | (_, .stepped _ _ _) :: earlier =>
      have := decidableFindsSpare earlier
      inferInstanceAs (Decidable (_ ∧ _))
  | (_, .called _) :: earlier => decidableFindsSpare earlier
  | (_, .returned _ _) :: earlier => decidableFindsSpare earlier

/-- A block that a context was given, beside those that it kept. -/
def Given (kept : List Nat) (data : Nat) (world : World Context) : Prop :=
  data ≠ null → world.holder data = some context ∧ data ∉ kept ∧
    (size = 3 * target.word → Holds target world.owner data)

end Definitions

variable {Context : Type} {target : Target} {context : Context} {request : ListCall}
  {world : World Context} {usage : Usage Context} {frame : World Context → Prop} {strict : Prop}
  {size data node item : Nat} {facts : Nat → Option Nat} {kept : List Nat}

/-! ## Steps that leave the lists alone -/

/-- A call that is one step and leaves the lists alone. -/
theorem follows_private {Value : Type} {program : Code Value} (hprivate : usage.Private target)
    (hatomic : program.Atomic) {assertion : World Context → Prop}
    {post : Value → World Context → Prop}
    (hstable : (usage.discipline target).Stable context assertion) (hholds : assertion world)
    (hpost : ∀ result, (usage.discipline target).Stable context (post result))
    (hreturns : ∀ world, assertion world → world.Shared target → usage.inv world →
      program.Returns world.state fun result after => ∃ next,
        Advances target context request world after next ∧
          (usage.meets next.moves → post result next)) :
    (usage.discipline target).Follows context request post program world := by
  apply Discipline.Follows.atomic hatomic hstable hholds hpost
  rintro world hassertion hinv
  apply (hreturns world hassertion hinv.1 hinv.2).mono
  rintro result after ⟨next, ⟨hmoves, hkeeps, rfl⟩, hresult⟩ hmeets
  refine ⟨next, rfl, hmoves.makes_private hkeeps hprivate hinv, hresult ?_⟩
  rw [hmoves.moves]
  exact hmeets

theorem Given.stable :
    (usage.discipline target).Stable context (Given target context size kept data) := by
  rintro world next hgiven - - - ⟨hrespects, -⟩ hne
  obtain ⟨hholder, hnew, hholds⟩ := hgiven hne
  exact ⟨(hrespects.holder data).mpr hholder, hnew, fun hsize => (hholds hsize).mono hrespects.owners⟩

theorem stable_const (claim : Prop) :
    (usage.discipline target).Stable context fun _ => claim :=
  fun _ _ hclaim _ _ _ _ => hclaim

theorem stable_imp {claim : Prop} {assertion : World Context → Prop}
    (hstable : claim → (usage.discipline target).Stable context assertion) :
    (usage.discipline target).Stable context fun world => claim → assertion world :=
  fun world next hworld hinv hnext hmeets hrely hclaim =>
    hstable hclaim world next (hworld hclaim) hinv hnext hmeets hrely

/-- A node that the context holds is initialized. -/
theorem follows_storeNode {index value : Nat} (hindex : index < 3)
    (hframe : Shelters target usage context frame)
    (hworld : frame world ∧ OwnsNode target context node facts world) (hnode : node ≠ null) :
    (usage.discipline target).Follows context request
      (fun _ world => frame world ∧
        OwnsNode target context node (Function.update facts index (some value)) world)
      (storeNode target node index value) world := by
  have hstable : (usage.discipline target).Stable context fun world =>
      frame world ∧ OwnsNode target context node facts world :=
    stable_and hframe.stable OwnsNode.stable
  have haccess : (usage.discipline target).Follows context request
      (fun _ world => frame world ∧ OwnsNode target context node facts world)
      (emit (.nodeAccess node)) world := by
    apply Discipline.Follows.atomic (emit_atomic _) hstable hworld fun _ => hstable
    rintro world ⟨hkept, hown⟩ hinv
    apply (hinv.1.access context request hown).mono
    rintro _ after ⟨next, ⟨hmoves, hkeeps, rfl⟩, hsame, hnext⟩ -
    obtain ⟨hmakes, hlater⟩ := hframe.own request world next hkept hinv hmoves hkeeps hsame
    exact ⟨next, rfl, hmakes, hlater, hnext⟩
  apply haccess.bind
  rintro _ world hworld
  apply Discipline.Follows.atomic (store_atomic hnode) hstable hworld
  · exact fun _ => stable_and hframe.stable OwnsNode.stable
  · rintro world ⟨hkept, hown⟩ hinv
    apply (hinv.1.store context request value hown hindex).mono
    rintro _ after ⟨next, ⟨hmoves, hkeeps, rfl⟩, hsame, hnext⟩ -
    obtain ⟨hmakes, hlater⟩ := hframe.own request world next hkept hinv hmoves hkeeps hsame
    exact ⟨next, rfl, hmakes, hlater, hnext⟩

theorem OwnsNode.weaken {known : Nat → Option Nat}
    (hnode : OwnsNode target context node facts world)
    (hknown : ∀ i < 3, ∀ value, known i = some value → facts i = some value) :
    OwnsNode target context node known world :=
  ⟨hnode.holder, hnode.holds, fun i hi value hvalue => hnode.facts i hi value (hknown i hi value hvalue)⟩

theorem follows_initListNode (hframe : Shelters target usage context frame)
    (hworld : frame world ∧ OwnsNode target context node facts world) (hnode : node ≠ null) :
    (usage.discipline target).Follows context request
      (fun _ world => frame world ∧ OwnsNode target context node (initialized item) world)
      (initListNode target node item) world := by
  apply (follows_storeNode (by norm_num) hframe hworld hnode).bind
  intro _ world hworld
  apply (follows_storeNode (by norm_num) hframe hworld hnode).bind
  intro _ world hworld
  apply (follows_storeNode (by norm_num) hframe hworld hnode).mono
  · exact fun _ => stable_and hframe.stable OwnsNode.stable
  · rintro _ world ⟨hkept, hown⟩
    refine ⟨hkept, hown.weaken fun i hi value hvalue => ?_⟩
    rcases i with _ | _ | _ | i
    · exact hvalue
    · exact hvalue
    · exact hvalue
    · cases hvalue

/-! ## Creations -/

section Creations

variable [DecidableEq Context]

/-- Moves of others do not matter to whether a context has added a block. -/
theorem created_of_other {moves : ListMoves Context} {other : Context} {move : ListMove}
    (hother : other ≠ context) :
    created context size ((other, move) :: moves) ↔ created context size moves :=
  Iff.of_eq (if_neg hother)

/-- A request that begins has not added a block. -/
theorem not_created_called {moves : ListMoves Context} :
    ¬ created context size ((context, .called request) :: moves) := by
  intro hcreated
  rw [created.eq_def] at hcreated
  simp at hcreated

theorem awaited_of_other {moves : ListMoves Context} {other : Context} {move : ListMove}
    (hother : other ≠ context) :
    awaited target context ((other, move) :: moves) = awaited target context moves :=
  if_neg hother

theorem FindsSpare.tail {moves : ListMoves Context} {move : Context × ListMove}
    (hspare : FindsSpare target (move :: moves)) : FindsSpare target moves := by
  obtain ⟨other, called | stepped | returned⟩ := move
  · exact hspare
  · exact hspare.2
  · exact hspare

theorem stable_created (usage : Usage Context) (target : Target) (context : Context) (size : Nat)
    (claim : Prop → Prop) : (usage.discipline target).Stable context
    fun world => claim (created context size world.moves) := by
  rintro world next hclaim - - - ⟨⟨⟨other, move, hother, hmoves, -⟩, -⟩, -⟩
  rwa [hmoves, created_of_other hother]

/-- A context that has added a block still awaits it after moves of others. -/
theorem stable_awaited : (usage.discipline target).Stable context
    fun world => size ∈ awaited target context world.moves := by
  rintro world next hawaited - - - ⟨⟨⟨other, move, hother, hmoves, -⟩, -⟩, -⟩
  rwa [hmoves, awaited_of_other hother]

/-- What a context knows when it was given a block or not. -/
def Allotted (target : Target) (frame : World Context → Prop) (strict : Prop) (context : Context)
    (size : Nat) (kept : List Nat) (data : Nat) (world : World Context) : Prop :=
  frame world ∧ Given target context size kept data world ∧
    (strict → created context size world.moves → data ≠ null)

theorem Allotted.stable (hframe : Lasting target usage context frame) :
    (usage.discipline target).Stable context (Allotted target frame strict context size kept data) :=
  stable_and hframe.stable (stable_and Given.stable (stable_imp fun _ =>
    stable_created usage target context size fun happens => happens → data ≠ null))

/-- A step that adds no block of the size. -/
theorem created_of_same {world next : World Context}
    (hmoves : Moves target context (.stepped request world.state next.state) world next)
    (hsame : blocksAdded size next.state.log = blocksAdded size world.state.log) :
    created context size next.moves ↔ created context size world.moves := by
  rw [hmoves.moves, created, if_pos rfl]
  exact or_iff_right (not_not.mpr hsame)

section Allocations

variable (hprivate : usage.Private target) (hsize : 0 < size)
  (hframe : Lasting target usage context frame)
  (hheld : ∀ world, frame world → ∀ data ∈ kept, world.holder data = some context)
  (hspare : strict → ∀ moves, usage.meets moves → FindsSpare target moves)
include hprivate hsize hframe hheld hspare

/-- The block that was added is taken. -/
theorem follows_takeSpare (hworld : frame world ∧ size ∈ awaited target context world.moves) :
    (usage.discipline target).Follows context request
      (Allotted target frame strict context size kept) (tbxMemPoolAllocate target size) world := by
  apply follows_private hprivate (tbxMemPoolAllocate_atomic hsize)
    (stable_and hframe.stable stable_awaited) hworld fun _ => Allotted.stable hframe
  rintro world ⟨hstill, hawaited⟩ hshared hinv
  apply (hshared.allocate context request hsize).mono
  rintro data after ⟨next, hadvances, hgrown, hblocks, hresult⟩
  refine ⟨next, hadvances, fun hmeets => ⟨?_, ?_, ?_⟩⟩
  · exact hframe.own request world next hstill hinv hadvances.moves hadvances.keeps hgrown
  · intro hne
    rcases hresult with ⟨hnull, -⟩ | ⟨-, hholder, hnew, hholds⟩
    · exact absurd hnull hne
    · exact ⟨hholder, fun hmem => hnew (hheld world hstill data hmem), hholds⟩
  · intro hstrict _ hnull
    rcases hresult with ⟨-, hfull⟩ | ⟨hne, -⟩
    · have hfinds := hspare hstrict next.moves hmeets
      rw [hadvances.moves.moves] at hfinds
      exact hfinds.1 size hawaited hfull
    · exact hne hnull

variable (hsound : target.Sound size) (hdemand : request.demand target = some size)
include hsound hdemand

/-- A block is added and taken. -/
theorem follows_createThenAllocate (hworld : frame world ∧ ¬ created context size world.moves) :
    (usage.discipline target).Follows context request
      (Allotted target frame strict context size kept) (do
        let created ← tbxMemPoolCreate target 1 size
        if created = .ok then tbxMemPoolAllocate target size else pure null) world := by
  have hfresh := stable_created usage target context size Not
  have hcreate : (usage.discipline target).Follows context request (fun status world =>
      frame world ∧ (status = .ok → size ∈ awaited target context world.moves) ∧
        (status = .error → ¬ created context size world.moves))
      (tbxMemPoolCreate target 1 size) world := by
    apply follows_private hprivate (tbxMemPoolCreate_atomic Nat.one_pos hsize)
      (stable_and hframe.stable hfresh) hworld
    · exact fun status => stable_and hframe.stable (stable_and
        (stable_imp fun _ => stable_awaited) (stable_imp fun _ => hfresh))
    · rintro world ⟨hstill, hfresh⟩ hshared hinv
      apply (hshared.create context request hsize hsound).mono
      rintro status after ⟨next, hadvances, hholder, hresult⟩
      refine ⟨next, hadvances, fun _ => ⟨?_, ?_, ?_⟩⟩
      · exact hframe.own request world next hstill hinv hadvances.moves hadvances.keeps
          fun data hdata => hholder ▸ hdata
      · rintro rfl
        obtain ⟨hmoves, -, rfl⟩ := hadvances
        rcases hresult with ⟨-, -, hadded⟩ | ⟨herror, -⟩
        · rw [hmoves.moves, awaited, if_pos rfl, hdemand]
          exact Option.filter_some_pos (decide_eq_true hadded)
        · cases herror
      · rintro rfl
        obtain ⟨hmoves, -, rfl⟩ := hadvances
        rcases hresult with ⟨hok, -⟩ | ⟨-, hsame⟩
        · cases hok
        · rwa [created_of_same hmoves hsame]
  apply hcreate.bind
  rintro status world ⟨hstill, hawaited, hfresh⟩
  cases status with
  | ok =>
      rw [if_pos rfl]
      exact follows_takeSpare hprivate hsize hframe hheld hspare ⟨hstill, hawaited rfl⟩
  | error =>
      rw [if_neg (by simp)]
      exact .ret (Allotted.stable hframe) ⟨hstill, fun hne => absurd rfl hne,
        fun _ hcreated => absurd hcreated (hfresh rfl)⟩

/-- An allocation that adds a block if the pool has none free. -/
theorem follows_allocateGrowing (hworld : frame world ∧ ¬ created context size world.moves) :
    (usage.discipline target).Follows context request
      (Allotted target frame strict context size kept) (allocateGrowing target size) world := by
  have hfresh := stable_created usage target context size Not
  have hallocate : (usage.discipline target).Follows context request (fun data world =>
      (frame world ∧ ¬ created context size world.moves) ∧
        Given target context size kept data world) (tbxMemPoolAllocate target size) world := by
    apply follows_private hprivate (tbxMemPoolAllocate_atomic hsize)
      (stable_and hframe.stable hfresh) hworld
    · exact fun _ => stable_and (stable_and hframe.stable hfresh) Given.stable
    · rintro world ⟨hstill, hfresh⟩ hshared hinv
      apply (hshared.allocate context request hsize).mono
      rintro data after ⟨next, hadvances, hgrown, hblocks, hresult⟩
      refine ⟨next, hadvances, fun _ => ⟨⟨?_, ?_⟩, ?_⟩⟩
      · exact hframe.own request world next hstill hinv hadvances.moves hadvances.keeps hgrown
      · obtain ⟨hmoves, -, rfl⟩ := hadvances
        rwa [created_of_same hmoves (hblocks size)]
      · intro hne
        rcases hresult with ⟨hnull, -⟩ | ⟨-, hholder, hnew, hholds⟩
        · exact absurd hnull hne
        · exact ⟨hholder, fun hmem => hnew (hheld world hstill data hmem), hholds⟩
  apply hallocate.bind
  rintro data world ⟨⟨hstill, hfresh⟩, hgiven⟩
  by_cases hnull : data = null
  · rw [if_pos hnull]
    exact follows_createThenAllocate hprivate hsize hframe hheld hspare hsound hdemand
      ⟨hstill, hfresh⟩
  · rw [if_neg hnull]
    exact .ret (Allotted.stable hframe) ⟨hstill, hgiven, fun _ _ => hnull⟩

end Allocations

/-- A node is allocated and initialized for an item, and linked by a section
that the context knows how to specify. -/
theorem follows_insertion (hprivate : usage.Private target)
    (hframe : Lasting target usage context frame)
    (hheld : ∀ world, frame world → ∀ data ∈ kept, world.holder data = some context)
    (hspare : strict → ∀ moves, usage.meets moves → FindsSpare target moves)
    (hdemand : request.demand target = some (3 * target.word))
    (hworld : frame world ∧ ¬ created context (3 * target.word) world.moves)
    {final : Status → World Context → Prop}
    (hfinal : ∀ status, (usage.discipline target).Stable context (final status))
    {link : Nat → Code Unit} (hatomic : ∀ node, (link node).Atomic)
    (hlink : ∀ node world, node ∉ kept → frame world →
      OwnsNode target context node (initialized item) world →
      (usage.discipline target).inv world →
      (link node).Returns world.state fun _ after =>
        usage.meets ((context, .stepped request world.state after) :: world.moves) →
        ∃ next, next.state = after ∧ (usage.discipline target).Makes context
          (.stepped request world.state after) world next ∧ final .ok next)
    (herror : ∀ world, frame world → (strict → ¬ created context (3 * target.word) world.moves) →
      final .error world) :
    (usage.discipline target).Follows context request final (do
      let newListNodePtr ← newListNode target
      if newListNodePtr ≠ null then do
        initListNode target newListNodePtr item
        link newListNodePtr
        pure Status.ok
      else pure .error) world := by
  apply (follows_allocateGrowing hprivate objectSize_pos hframe hheld hspare objectSize_sound
    hdemand hworld).bind
  rintro node world ⟨hstill, hgiven, hsucceeds⟩
  by_cases hnull : node = null
  · rw [if_neg (not_not.mpr hnull)]
    exact .ret (hfinal .error) (herror world hstill fun hstrict hcreated =>
      hsucceeds hstrict hcreated hnull)
  · rw [if_pos hnull]
    obtain ⟨hholder, hnew, hholds⟩ := hgiven hnull
    have hnode : OwnsNode target context node (fun _ => none) world :=
      ⟨hholder, hholds rfl, fun _ _ _ hknown => by cases hknown⟩
    apply (follows_initListNode (hframe.shelters hprivate) ⟨hstill, hnode⟩ hnull).bind
    rintro _ world hready
    have hlinked : (usage.discipline target).Follows context request
        (fun _ => final .ok) (link node) world := by
      apply Discipline.Follows.atomic (hatomic node)
        (stable_and hframe.stable OwnsNode.stable) hready (fun _ => hfinal .ok)
      rintro world ⟨hstill, hown⟩ hinv
      exact hlink node world hnew hstill hown hinv
    exact hlinked.map hfinal fun _ _ hok => hok

end Creations

end MicroTbx

import MicroTbx.Preemptive.Calls
import MicroTbx.List.Refinement

/-! # Pools that grow on demand, under preemption

Contexts allocate and release blocks and insert items. A call that finds no
free block adds one to the pool and takes it in a later section, so another
context can take it first. Every call that added a block succeeds as long as
that does not happen.
-/

namespace MicroTbx

open Program

section Definitions

variable {Context : Type} [DecidableEq Context] (target : Target)

/-- The blocks that a context holds after a call returned. -/
def ListCall.blocksAfter : ListCall → ListReply → List Nat → List Nat
  | .pool call, .pool reply, own => call.blocksAfter reply own
  | _, _, own => own

/-- The blocks that a context started with or was given, and did not release. -/
def heldBlocks (start : Context → List Nat) (context : Context) : ListMoves Context → List Nat
  | [] => start context
  | (other, move) :: earlier =>
      if other = context then
        match move with
        | .returned request result =>
            request.blocksAfter result (heldBlocks start context earlier)
        | _ => heldBlocks start context earlier
      else heldBlocks start context earlier

def ListOperation.IsInsertion : ListOperation → Prop
  | .insertItemFront _ | .insertItemBack _ | .insertItemBefore _ _ | .insertItemAfter _ _ => True
  | _ => False

instance (operation : ListOperation) : Decidable operation.IsInsertion :=
  match operation with
  | .insertItemFront _ | .insertItemBack _ | .insertItemBefore _ _ | .insertItemAfter _ _ =>
      inferInstanceAs (Decidable True)
  | .clear | .getSize | .removeItem _ | .getFirstItem | .getLastItem | .getPreviousItem _
  | .getNextItem _ | .swapItems _ _ | .sortItems _ => inferInstanceAs (Decidable False)

/-- A context allocates blocks, releases those it holds, and inserts items. -/
def GrowthCall (lists own : List Nat) : ListCall → Prop
  | .pool (.allocate size) | .pool (.allocateAuto size) => size < 2 ^ target.sizeBits
  | .pool (.release memPtr) => memPtr ∈ own
  | .on list operation => list ∈ lists ∧ operation.Valid ∧ operation.IsInsertion
  | _ => False

instance (lists own : List Nat) (call : ListCall) : Decidable (GrowthCall target lists own call) :=
  match call with
  | .pool (.allocate _) | .pool (.allocateAuto _) => inferInstanceAs (Decidable (_ < _))
  | .pool (.release _) => inferInstanceAs (Decidable (_ ∈ _))
  | .on _ _ => inferInstanceAs (Decidable (_ ∧ _))
  | .create | .delete _ | .pool (.create _ _) | .pool (.heapAllocate _) | .pool (.write _ _ _) =>
      inferInstanceAs (Decidable False)

/-- Contexts that share the pools and the lists, each with blocks of its own. -/
def growthClients (lists : List Nat) (start : Context → List Nat) :
    Clients Context State Fault ListCall ListReply where
  allowed := fun moves context => GrowthCall target lists (heldBlocks start context moves)
  perform := ListCall.perform target

instance (lists : List Nat) (start : Context → List Nat) (moves : ListMoves Context)
    (context : Context) (request : ListCall) :
    Decidable ((growthClients target lists start).allowed moves context request) :=
  inferInstanceAs (Decidable (GrowthCall _ _ _ _))

/-- The call gave its caller nothing. -/
def Fails (reply : ListReply) : Prop := reply = .status .error ∨ reply = .pool (.pointer null)

instance (reply : ListReply) : Decidable (Fails reply) := inferInstanceAs (Decidable (_ ∨ _))

/-- Every call that added a block of the size it allocates has succeeded. -/
def KeepsPromise : ListMoves Context → Prop
  | [] => True
  | (context, .returned request result) :: earlier =>
      (∀ size ∈ request.demand target, created context size earlier → ¬ Fails result) ∧
        KeepsPromise earlier
  | _ :: earlier => KeepsPromise earlier

instance decidableKeepsPromise : (moves : ListMoves Context) → Decidable (KeepsPromise target moves)
  | [] => inferInstanceAs (Decidable True)
  | (_, .returned _ _) :: earlier =>
      have := decidableKeepsPromise earlier
      inferInstanceAs (Decidable (_ ∧ _))
  | (_, .called _) :: earlier => decidableKeepsPromise earlier
  | (_, .stepped _ _ _) :: earlier => decidableKeepsPromise earlier

/-- No size that a pool is created for wraps to a smaller request. -/
def SoundSizes : ListMoves Context → Prop
  | [] => True
  | (_, .called request) :: earlier => request.BlockSize target.Sound ∧ SoundSizes earlier
  | _ :: earlier => SoundSizes earlier

instance decidableSoundSizes : (moves : ListMoves Context) → Decidable (SoundSizes target moves)
  | [] => inferInstanceAs (Decidable True)
  | (_, .called _) :: earlier =>
      have := decidableSoundSizes earlier
      inferInstanceAs (Decidable (_ ∧ _))
  | (_, .stepped _ _ _) :: earlier => decidableSoundSizes earlier
  | (_, .returned _ _) :: earlier => decidableSoundSizes earlier

/-- Lists only grow, and keep their handles. -/
def Grows (world next : World Context) : Prop :=
  ∀ view ∈ world.lists, ∃ other ∈ next.lists, other.header = view.header ∧
    ∀ node ∈ view.nodes, node ∈ other.nodes

/-- Different blocks that a context holds. -/
def HoldsBlocks (context : Context) (own : List Nat) (world : World Context) : Prop :=
  own.Nodup ∧ ∀ data ∈ own, world.holder data = some context

def growthUsage (lists : List Nat) (start : Context → List Nat) : Usage Context where
  inv := fun world => (∀ list ∈ lists, ∃ view ∈ world.lists, view.header = list) ∧
    KeepsPromise target world.moves
  rely := fun _ world next => Grows world next
  meets := fun moves => FindsSpare target moves ∧ SoundSizes target moves
  idle := fun context world =>
    HoldsBlocks context (heldBlocks start context world.moves) world
  done := fun context request result world =>
    HoldsBlocks context (request.blocksAfter result (heldBlocks start context world.moves)) world ∧
      ∀ size ∈ request.demand target, created context size world.moves → ¬ Fails result

/-- What a context knows during a call, of the blocks that it held before. -/
def StillHolds (start : Context → List Nat) (context : Context) (own : List Nat)
    (world : World Context) : Prop :=
  heldBlocks start context world.moves = own ∧ ∀ data ∈ own, world.holder data = some context

/-- A node is in a list. -/
def NodeIn (list node : Nat) (world : World Context) : Prop :=
  ∃ view ∈ world.lists, view.header = list ∧ node ∈ view.nodes

end Definitions

variable {Context : Type} [DecidableEq Context] {target : Target} {context other : Context}
  {world next : World Context} {start : Context → List Nat} {lists own : List Nat}
  {moves : ListMoves Context} {request : ListCall} {reply : ListReply} {usage : Usage Context}
  {size data list node item : Nat}

/-! ## What contexts hold -/

theorem heldBlocks_of_other {move : ListMove} (hother : other ≠ context) :
    heldBlocks start context ((other, move) :: moves) = heldBlocks start context moves :=
  if_neg hother

@[simp] theorem heldBlocks_stepped {before after : State} :
    heldBlocks start context ((other, .stepped request before after) :: moves) =
      heldBlocks start context moves := ite_self _

@[simp] theorem heldBlocks_called :
    heldBlocks start context ((other, .called request) :: moves) =
      heldBlocks start context moves := ite_self _

theorem heldBlocks_returned :
    heldBlocks start context ((context, .returned request reply) :: moves) =
      request.blocksAfter reply (heldBlocks start context moves) := if_pos rfl

/-- What a context holds is not changed by moves of others. -/
theorem Respects.heldBlocks_eq (hrespects : Respects target context world next) :
    heldBlocks start context next.moves = heldBlocks start context world.moves := by
  obtain ⟨other, move, hother, hmoves, -⟩ := hrespects.moved
  rw [hmoves, heldBlocks_of_other hother]

omit [DecidableEq Context] in
theorem HoldsBlocks.respects (hholds : HoldsBlocks context own world)
    (hrespects : Respects target context world next) : HoldsBlocks context own next :=
  ⟨hholds.1, fun data hdata => (hrespects.holder data).mpr (hholds.2 data hdata)⟩

/-- During a call a context holds what it held before, and perhaps more. -/
theorem StillHolds.step (hholding : StillHolds start context own world)
    (hmoves : Moves target context (.stepped request world.state next.state) world next)
    (hgrown : ∀ data ∈ own, world.holder data = some context → next.holder data = some context) :
    StillHolds start context own next := by
  refine ⟨?_, fun data hdata => hgrown data hdata (hholding.2 data hdata)⟩
  rw [hmoves.moves, heldBlocks_stepped]
  exact hholding.1

theorem StillHolds.lasting : Lasting target usage context (StillHolds start context own) where
  stable := by
    rintro world next ⟨hown, hheld⟩ - - - ⟨hrespects, -⟩
    refine ⟨?_, fun data hdata => (hrespects.holder data).mpr (hheld data hdata)⟩
    rw [← hown]
    exact hrespects.heldBlocks_eq
  own := fun _ _ _ hholding _ hmoves _ hgrown => hholding.step hmoves fun data _ => hgrown data

/-- A context holds the block that it was given beside those it had. -/
theorem StillHolds.allocated (hown : own.Nodup) (hholding : StillHolds start context own world)
    (hgiven : Given target context size own data world) :
    HoldsBlocks context (if data ≠ null then data :: own else own) world := by
  split
  · next hne =>
      obtain ⟨hholder, hnew, -⟩ := hgiven hne
      exact ⟨List.nodup_cons.mpr ⟨hnew, hown⟩, List.forall_mem_cons.mpr ⟨hholder, hholding.2⟩⟩
  · exact ⟨hown, hholding.2⟩

/-! ## The discipline -/

omit [DecidableEq Context] in
theorem Grows.refl (world : World Context) : Grows world world :=
  fun view hview => ⟨view, hview, rfl, fun _ hnode => hnode⟩

omit [DecidableEq Context] in
theorem Grows.of_eq (hlists : next.lists = world.lists) : Grows world next :=
  fun view hview => ⟨view, hlists ▸ hview, rfl, fun _ hnode => hnode⟩

theorem growth_private : (growthUsage target lists start).Private target := by
  rintro context request world next hmoves hkeeps - ⟨hlive, hpromise⟩
  refine ⟨⟨?_, ?_⟩, fun other _ => .of_eq hkeeps.lists⟩
  · rw [hkeeps.lists]
    exact hlive
  · rw [hmoves.moves]
    exact hpromise

theorem NodeIn.lasting :
    Lasting target (growthUsage target lists start) context (NodeIn list node) where
  stable := by
    rintro world next ⟨view, hview, rfl, hnode⟩ - - - ⟨-, hgrows⟩
    obtain ⟨other, hother, hheader, hnodes⟩ := hgrows view hview
    exact ⟨other, hother, hheader, hnodes node hnode⟩
  own := by
    rintro request world next ⟨view, hview, rfl, hnode⟩ - - hkeeps -
    exact ⟨view, hkeeps.lists ▸ hview, rfl, hnode⟩

theorem growth_done_stable : ((growthUsage target lists start).discipline target).Stable context
    ((growthUsage target lists start).done context request reply) := by
  rintro world next ⟨hholds, hpromise⟩ - - - ⟨hrespects, -⟩
  refine ⟨?_, ?_⟩
  · rw [hrespects.heldBlocks_eq]
    exact hholds.respects hrespects
  · obtain ⟨other, move, hother, hmoves, -⟩ := hrespects.moved
    rw [hmoves]
    exact fun size hdemand hcreated =>
      hpromise size hdemand ((created_of_other hother).mp hcreated)

/-- The step that links a node keeps to the discipline. -/
theorem growth_relinks {view : ListView} {rest : List ListView} {nodes : List Nat} {after : State}
    (hperm : world.lists.Perm (view :: rest)) (hnodes : ∀ node ∈ view.nodes, node ∈ nodes)
    (hrelinks : Relinks target context request world rest view nodes after next)
    (hinv : (growthUsage target lists start).inv world) :
    ((growthUsage target lists start).discipline target).Makes context
      (.stepped request world.state next.state) world next := by
  obtain ⟨hmoves, hlists, -, -⟩ := hrelinks
  have hgrows : Grows world next := by
    intro other hother
    rw [hlists]
    rcases List.mem_cons.mp (hperm.mem_iff.mp hother) with rfl | hrest
    · exact ⟨_, List.mem_cons_self, rfl, hnodes⟩
    · exact ⟨other, List.mem_cons_of_mem _ hrest, rfl, fun _ hnode => hnode⟩
  refine hmoves.makes ⟨fun list hlist => ?_, ?_⟩ fun _ _ => hgrows
  · obtain ⟨other, hother, rfl⟩ := hinv.1 list hlist
    obtain ⟨larger, hlarger, hheader, -⟩ := hgrows other hother
    exact ⟨larger, hlarger, hheader⟩
  · rw [hmoves.moves]
    exact hinv.2

/-! ## Calls of the pools -/

section Calls

/-- The discipline that the calls are followed in. -/
abbrev growth (target : Target) (lists : List Nat) (start : Context → List Nat) :=
  (growthUsage target lists start).discipline target

theorem growth_findsSpare {moves : ListMoves Context}
    (hmeets : (growthUsage target lists start).meets moves) : FindsSpare target moves := hmeets.1

/-- Nothing is given to a context by a call with an invalid size. -/
theorem follows_rejected {program : Code Nat} {site : Site} (hatomic : program.Atomic)
    (heval : ∀ state, program.Evaluates state null (state.rejected site))
    (hworld : StillHolds start context own world ∧ ¬ created context size world.moves) :
    (growth target lists start).Follows context request
      (Allotted target (StillHolds start context own) True context size own) program world := by
  apply follows_private growth_private hatomic
    (stable_and StillHolds.lasting.stable (stable_created _ target context size Not)) hworld
    fun _ => Allotted.stable StillHolds.lasting
  rintro world ⟨hholding, hfresh⟩ hshared -
  apply (heval world.state).mono
  rintro _ _ ⟨rfl, rfl⟩
  obtain ⟨next, hadvances, hholder⟩ := hshared.rejected context request site
  refine ⟨next, hadvances, fun _ => ⟨?_, fun hne => absurd rfl hne, fun _ hcreated => ?_⟩⟩
  · exact hholding.step hadvances.moves fun data _ hdata => hholder ▸ hdata
  · obtain ⟨hmoves, -, hstate⟩ := hadvances
    exact absurd ((created_of_same hmoves (by rw [hstate]; rfl)).mp hcreated) hfresh

theorem follows_allocate (hworld : StillHolds start context own world)
    (hfresh : ¬ created context size world.moves) :
    (growth target lists start).Follows context request
      (fun data world => StillHolds start context own world ∧ Given target context size own data world)
      (tbxMemPoolAllocate target size) world := by
  have hpost : ∀ data, (growth target lists start).Stable context fun world =>
      StillHolds start context own world ∧ Given target context size own data world :=
    fun _ => stable_and StillHolds.lasting.stable Given.stable
  rcases Nat.eq_zero_or_pos size with rfl | hsize
  · apply (follows_rejected tbxMemPoolAllocate_zero_atomic (fun _ => tbxMemPoolAllocate_zero)
      ⟨hworld, hfresh⟩).mono hpost
    exact fun data world hallotted => ⟨hallotted.1, hallotted.2.1⟩
  · apply follows_private growth_private (tbxMemPoolAllocate_atomic hsize) StillHolds.lasting.stable
      hworld hpost
    rintro world hholding hshared -
    apply (hshared.allocate context request hsize).mono
    rintro data after ⟨next, hadvances, hgrown, -, hresult⟩
    refine ⟨next, hadvances, fun _ => ⟨?_, fun hne => ?_⟩⟩
    · exact hholding.step hadvances.moves fun data _ => hgrown data
    · rcases hresult with ⟨hnull, -⟩ | ⟨-, hholder, hnew, hholds⟩
      · exact absurd hnull hne
      · exact ⟨hholder, fun hmem => hnew (hholding.2 data hmem), hholds⟩

theorem follows_allocateAuto (hsound : target.Sound size)
    (hdemand : request.demand target = some size) (hworld : StillHolds start context own world)
    (hfresh : ¬ created context size world.moves) :
    (growth target lists start).Follows context request
      (Allotted target (StillHolds start context own) True context size own)
      (tbxMemPoolAllocateAuto target size) world := by
  rcases Nat.eq_zero_or_pos size with rfl | hsize
  · exact follows_rejected tbxMemPoolAllocateAuto_zero_atomic
      (fun _ => tbxMemPoolAllocateAuto_zero) ⟨hworld, hfresh⟩
  have hstable := stable_and (@StillHolds.lasting _ _ target context start own
    (growthUsage target lists start)).stable (stable_created _ target context size Not)
  have hfind : (growth target lists start).Follows context request
      (fun _ world => StillHolds start context own world ∧ ¬ created context size world.moves)
      (findPool target size) world := by
    apply follows_private growth_private findPool_atomic hstable ⟨hworld, hfresh⟩ fun _ => hstable
    rintro world ⟨hholding, hfresh⟩ hshared -
    apply (hshared.findPool context request).mono
    rintro _ after ⟨hafter, next, hadvances, hholder⟩
    refine ⟨next, hadvances, fun _ => ⟨?_, ?_⟩⟩
    · exact hholding.step hadvances.moves fun data _ hdata => hholder ▸ hdata
    · obtain ⟨hmoves, -, hstate⟩ := hadvances
      rwa [created_of_same hmoves (by rw [hstate, hafter])]
  rw [tbxMemPoolAllocateAuto_eq hsize]
  apply hfind.bind
  rintro poolNodePtr world hworld
  have hheld : ∀ world, StillHolds start context own world → ∀ data ∈ own,
      world.holder data = some context := fun _ hholding => hholding.2
  split
  · exact follows_createThenAllocate growth_private hsize StillHolds.lasting hheld
      (fun _ _ => growth_findsSpare) hsound hdemand hworld
  · exact follows_allocateGrowing growth_private hsize StillHolds.lasting hheld
      (fun _ _ => growth_findsSpare) hsound hdemand hworld

theorem follows_release (hdata : data ∈ own) (hne : data ≠ null) (hown : own.Nodup)
    (hworld : StillHolds start context own world) :
    (growth target lists start).Follows context request
      (fun _ world => heldBlocks start context world.moves = own ∧
        HoldsBlocks context (own.erase data) world) (tbxMemPoolRelease target data) world := by
  apply follows_private growth_private (tbxMemPoolRelease_atomic hne) StillHolds.lasting.stable hworld
  · rintro _ world next ⟨hheld, hholds⟩ - - - ⟨hrespects, -⟩
    exact ⟨hrespects.heldBlocks_eq.trans hheld, hholds.respects hrespects⟩
  · rintro world ⟨hheld, hholders⟩ hshared -
    apply (hshared.release context request (hholders data hdata)).mono
    rintro _ after ⟨next, hadvances, hothers⟩
    refine ⟨next, hadvances, fun _ => ⟨?_, hown.erase data, fun other hother => ?_⟩⟩
    · rw [hadvances.moves.moves, heldBlocks_stepped]
      exact hheld
    · obtain ⟨hother, hmem⟩ := hown.mem_erase_iff.mp hother
      rw [hothers other hother]
      exact hholders other hmem

/-! ## Insertions -/

/-- A node is linked at a place that the context can find. -/
theorem follows_insert {operation : ListOperation} {frame : World Context → Prop}
    (hown : own.Nodup) (hframe : Lasting target (growthUsage target lists start) context frame)
    (hholding : ∀ world, frame world → StillHolds start context own world)
    (hdemand : (ListCall.on list operation).demand target = some (3 * target.word))
    (hworld : frame world ∧ ¬ created context (3 * target.word) world.moves)
    {link : Nat → Code Unit} (hatomic : ∀ node, (link node).Atomic)
    (hplace : ∀ world, frame world → (growthUsage target lists start).inv world →
      ∃ view rest front back, world.lists.Perm (view :: rest) ∧ view.nodes = front ++ back ∧
        LinksBetween target view.header front back link) :
    (growth target lists start).Follows context (.on list operation)
      (fun status => (growthUsage target lists start).done context (.on list operation)
        (.status status)) (do
      let newListNodePtr ← newListNode target
      if newListNodePtr ≠ null then do
        initListNode target newListNodePtr item
        link newListNodePtr
        pure Status.ok
      else pure .error) world := by
  have hheld : ∀ world, frame world → ∀ data ∈ own, world.holder data = some context :=
    fun world hstill => (hholding world hstill).2
  have hblocks : ∀ world, StillHolds start context own world → HoldsBlocks context
      (heldBlocks start context world.moves) world := by
    rintro world ⟨rfl, hholders⟩
    exact ⟨hown, hholders⟩
  apply follows_insertion growth_private hframe hheld
    (fun (_ : True) _ => growth_findsSpare) hdemand hworld (fun _ => growth_done_stable) hatomic
  · rintro node world hnew hstill hnode ⟨hshared, hinv⟩
    obtain ⟨view, rest, front, back, hperm, hsplit, hlink⟩ := hplace world hstill hinv
    apply (hshared.linkNode context (.on list operation) hperm hnode hsplit hlink).mono
    rintro _ after ⟨next, hrelinks, -, hothers, -⟩ -
    have hnodes : ∀ other ∈ view.nodes, other ∈ front ++ node :: back := fun other hmem =>
      List.perm_middle.mem_iff.mpr (List.mem_cons_of_mem _ (hsplit ▸ hmem))
    obtain rfl := hrelinks.state
    refine ⟨next, rfl, growth_relinks hperm hnodes hrelinks hinv, hblocks next ?_, ?_⟩
    · apply (hholding world hstill).step hrelinks.moves
      intro data hdata hholder
      rw [hothers data (ne_of_mem_of_not_mem hdata hnew)]
      exact hholder
    · rintro size - - (hfails | hfails) <;> cases hfails
  · intro world hstill hfresh
    refine ⟨hblocks world (hholding world hstill), fun size hsize hcreated => ?_⟩
    obtain rfl : size = 3 * target.word := Option.some.inj (hsize.symm.trans hdemand)
    exact absurd hcreated (hfresh trivial)

/-- A list that stays in existence can be found in the world. -/
theorem exists_view (hinv : (growthUsage target lists start).inv world) (hlist : list ∈ lists) :
    ∃ view rest, view.header = list ∧ world.lists.Perm (view :: rest) := by
  obtain ⟨view, hview, hheader⟩ := hinv.1 list hlist
  obtain ⟨front, back, heq⟩ := List.append_of_mem hview
  exact ⟨view, front ++ back, hheader, heq ▸ List.perm_middle⟩

theorem follows_insertAtEnd {operation : ListOperation} {site : Site}
    {link : Nat → Nat → Code Unit} (hown : own.Nodup) (hlist : list ∈ lists) (hne : list ≠ null)
    (hitem : item ≠ null)
    (hdemand : (ListCall.on list operation).demand target = some (3 * target.word))
    (hworld : StillHolds start context own world ∧ ¬ created context (3 * target.word) world.moves)
    (hatomic : ∀ node, (link list node).Atomic)
    (hplace : ∀ nodes : List Nat, ∃ front back, nodes = front ++ back ∧
      LinksBetween target list front back (link list)) :
    (growth target lists start).Follows context (.on list operation)
      (fun status => (growthUsage target lists start).done context (.on list operation)
        (.status status)) (insertAtEnd target site link list item) world := by
  rw [insertAtEnd_eq hne hitem]
  apply follows_insert hown StillHolds.lasting (fun _ hholding => hholding) hdemand hworld hatomic
  rintro world - hinv
  obtain ⟨view, rest, rfl, hperm⟩ := exists_view hinv hlist
  obtain ⟨front, back, hsplit, hlink⟩ := hplace view.nodes
  exact ⟨view, rest, front, back, hperm, hsplit, hlink⟩

theorem follows_insertNextTo {operation : ListOperation} {site : Site} {ref : Nat}
    {link : Nat → Nat → Nat → Code Unit} (hown : own.Nodup) (hlist : list ∈ lists)
    (hne : list ≠ null) (hitem : item ≠ null) (href : ref ≠ null)
    (hdemand : (ListCall.on list operation).demand target = some (3 * target.word))
    (hworld : StillHolds start context own world ∧ ¬ created context (3 * target.word) world.moves)
    (hatomic : ∀ node refNode, (link list node refNode).Atomic)
    (hplace : ∀ before refNode behind, ∃ front back, before ++ refNode :: behind = front ++ back ∧
      LinksBetween target list front back fun node => link list node refNode) :
    (growth target lists start).Follows context (.on list operation)
      (fun status => (growthUsage target lists start).done context (.on list operation)
        (.status status)) (insertNextTo target site link list item ref) world := by
  have hstable := stable_and (@StillHolds.lasting _ _ target context start own
    (growthUsage target lists start)).stable
      (stable_created _ target context (3 * target.word) Not)
  have hfind : (growth target lists start).Follows context (.on list operation)
      (fun refNode world => (StillHolds start context own world ∧
        ¬ created context (3 * target.word) world.moves) ∧
          (refNode ≠ null → NodeIn list refNode world))
      (tbxListFindListNode target list ref) world := by
    apply follows_private growth_private (tbxListFindListNode_atomic hne href) hstable hworld
      fun _ => stable_and hstable (stable_imp fun _ => NodeIn.lasting.stable)
    rintro world ⟨hholding, hfresh⟩ hshared hinv
    obtain ⟨view, rest, rfl, hperm⟩ := exists_view hinv hlist
    have hview : view ∈ world.lists := hperm.mem_iff.mpr List.mem_cons_self
    apply (hshared.findListNode context (.on view.header operation) hview href).mono
    rintro refNode after ⟨hfound, hblocks, next, hadvances, hsame⟩
    refine ⟨next, hadvances, fun _ => ⟨⟨?_, ?_⟩, fun hrefNode => ?_⟩⟩
    · exact hholding.step hadvances.moves fun data _ hdata => hsame.holder ▸ hdata
    · obtain ⟨hmoves, -, rfl⟩ := hadvances
      rwa [created_of_same hmoves (hblocks _)]
    · rcases hfound with ⟨hnull, -⟩ | ⟨before, behind, hsplit, -⟩
      · exact absurd hnull hrefNode
      · exact ⟨view, hadvances.keeps.lists ▸ hview, rfl, hsplit ▸ List.mem_append_cons_self⟩
  rw [insertNextTo_eq hne hitem href]
  apply hfind.bind
  rintro refNode world ⟨⟨hholding, hfresh⟩, hin⟩
  by_cases hnull : refNode = null
  · rw [if_neg (not_not.mpr hnull)]
    refine .ret growth_done_stable ⟨?_, fun size hsize hcreated => ?_⟩
    · obtain ⟨rfl, hholders⟩ := hholding
      exact ⟨hown, hholders⟩
    · obtain rfl : size = 3 * target.word := Option.some.inj (hsize.symm.trans hdemand)
      exact absurd hcreated hfresh
  · rw [if_pos hnull]
    apply follows_insert hown (StillHolds.lasting.and NodeIn.lasting) (fun _ hstill => hstill.1)
      hdemand ⟨⟨hholding, hin hnull⟩, hfresh⟩ fun node => hatomic node refNode
    rintro world ⟨-, view, hview, rfl, hrefNode⟩ -
    obtain ⟨front, back, heq⟩ := List.append_of_mem hview
    obtain ⟨before, behind, hsplit⟩ := List.append_of_mem hrefNode
    obtain ⟨first, last, hparts, hlink⟩ := hplace before refNode behind
    exact ⟨view, front ++ back, first, last, heq ▸ List.perm_middle, hsplit.trans hparts, hlink⟩

theorem follows_insertion_call {operation : ListOperation} (hown : own.Nodup) (hlist : list ∈ lists)
    (hne : list ≠ null) (hvalid : operation.Valid) (hinsertion : operation.IsInsertion)
    (hworld : StillHolds start context own world ∧ ¬ created context (3 * target.word) world.moves) :
    (growth target lists start).Follows context (.on list operation)
      ((growthUsage target lists start).done context (.on list operation))
      (operation.perform target list) world := by
  have hdone : ∀ reply, (growth target lists start).Stable context
      ((growthUsage target lists start).done context (.on list operation) reply) :=
    fun _ => growth_done_stable
  cases operation with
  | insertItemFront item =>
      apply (follows_insertAtEnd hown hlist hne hvalid rfl hworld (fun _ => linkFront_atomic)
        fun nodes => ⟨[], nodes, rfl, linksFront⟩).map hdone
      exact fun _ _ hpost => hpost
  | insertItemBack item =>
      apply (follows_insertAtEnd hown hlist hne hvalid rfl hworld (fun _ => linkBack_atomic)
        fun nodes => ⟨nodes, [], (List.append_nil _).symm, linksBack⟩).map hdone
      exact fun _ _ hpost => hpost
  | insertItemBefore item itemRef =>
      apply (follows_insertNextTo hown hlist hne hvalid.1 hvalid.2 rfl hworld
        (fun _ _ => linkBefore_atomic)
        fun before refNode behind => ⟨before, refNode :: behind, rfl, linksBefore⟩).map hdone
      exact fun _ _ hpost => hpost
  | insertItemAfter item itemRef =>
      apply (follows_insertNextTo hown hlist hne hvalid.1 hvalid.2 rfl hworld
        (fun _ _ => linkAfter_atomic)
        fun before refNode behind =>
          ⟨before ++ [refNode], behind, List.append_cons _ _ _, linksAfter⟩).map hdone
      exact fun _ _ hpost => hpost
  | _ => exact hinsertion.elim

/-- Every call that is allowed keeps to the discipline and does what it should. -/
theorem follows_growthCall (hallowed : GrowthCall target lists own request)
    (hsound : request.BlockSize target.Sound) (hown : own.Nodup)
    (hinv : (growth target lists start).inv world) (hworld : StillHolds start context own world)
    (hfresh : ∀ size, ¬ created context size world.moves) :
    (growth target lists start).Follows context request
      ((growthUsage target lists start).done context request) (request.perform target) world := by
  have hdone : ∀ reply, (growth target lists start).Stable context
      ((growthUsage target lists start).done context request reply) :=
    fun _ => growth_done_stable
  have hpool : ∀ reply : PoolReply, (growth target lists start).Stable context
      ((growthUsage target lists start).done context request (.pool reply)) :=
    fun _ => growth_done_stable
  match request with
  | .create | .delete _ | .pool (.create _ _) | .pool (.heapAllocate _) | .pool (.write _ _ _) =>
      exact hallowed.elim
  | .on list operation =>
      obtain ⟨view, hview, rfl⟩ := hinv.2.1 list hallowed.1
      have hblock := mem_blocksOf hview List.mem_cons_self
      have hne := (hinv.1.memory.holds _ hblock).ne_null hinv.1.memory.pools.heap
      exact follows_insertion_call hown hallowed.1 hne hallowed.2.1 hallowed.2.2
        ⟨hworld, hfresh _⟩
  | .pool (.allocate size) =>
      apply ((follows_allocate hworld (hfresh size)).map hpool _).map hdone
      · exact fun _ _ hpost => hpost
      · rintro data world ⟨⟨rfl, hholders⟩, hgiven⟩
        exact ⟨StillHolds.allocated hown ⟨rfl, hholders⟩ hgiven, fun _ hdemand => by cases hdemand⟩
  | .pool (.allocateAuto size) =>
      apply ((follows_allocateAuto hsound rfl hworld (hfresh size)).map hpool _).map hdone
      · exact fun _ _ hpost => hpost
      · rintro data world ⟨⟨rfl, hholders⟩, hgiven, hsucceeds⟩
        refine ⟨StillHolds.allocated hown ⟨rfl, hholders⟩ hgiven, fun other hdemand hcreated => ?_⟩
        obtain rfl : other = size := (Option.some.inj hdemand).symm
        have hne := hsucceeds trivial hcreated
        rintro (hfails | hfails)
        · cases hfails
        · exact hne (PoolReply.pointer.inj (ListReply.pool.inj hfails))
  | .pool (.release memPtr) =>
      have happ := hinv.1.held memPtr context (hworld.2 memPtr hallowed)
      have hout := hinv.1.memory.out.mem_iff.mpr (List.mem_append_right _ happ)
      have hne := hinv.1.memory.pools.ne_null_of_out hout
      apply ((follows_release hallowed hne hown hworld).map hpool _).map hdone
      · exact fun _ _ hpost => hpost
      · rintro _ world ⟨rfl, hholds⟩
        exact ⟨hholds, fun _ hdemand => by cases hdemand⟩

end Calls

/-! ## Every interleaving -/

omit [DecidableEq Context] in
theorem SoundSizes.tail {move : Context × ListMove} (hsizes : SoundSizes target (move :: moves)) :
    SoundSizes target moves := by
  obtain ⟨other, called | stepped | returned⟩ := move
  · exact hsizes.2
  · exact hsizes
  · exact hsizes

theorem growth_sound : (growth target lists start).Sound (growthClients target lists start) where
  suffix := by
    rintro move moves ⟨hspare, hsizes⟩
    exact ⟨hspare.tail, hsizes.tail⟩
  idle := by
    rintro context world next hholds - - - ⟨hrespects, -⟩
    change HoldsBlocks context (heldBlocks start context next.moves) next
    rw [hrespects.heldBlocks_eq]
    exact HoldsBlocks.respects hholds hrespects
  call := by
    rintro context request world hinv ⟨hown, hholders⟩ hallowed ⟨-, hsizes⟩
    have hmoves : Moves target context (.called request) world
        (world.recorded context (.called request)) := hinv.1.moves_record rfl
    have hnext : (growth target lists start).Makes context (.called request) world
        (world.recorded context (.called request)) :=
      hmoves.makes hinv.2 fun _ _ => Grows.refl world
    refine ⟨world.recorded context (.called request), rfl, hnext, ?_⟩
    apply follows_growthCall hallowed hsizes.1 hown hnext.inv
    · exact ⟨heldBlocks_called, hholders⟩
    · exact fun size => not_created_called
  finish := by
    rintro context request reply world hinv ⟨hholds, hpromise⟩ -
    have hmoves : Moves target context (.returned request reply) world
        (world.recorded context (.returned request reply)) := hinv.1.moves_record rfl
    refine ⟨world.recorded context (.returned request reply), rfl,
      hmoves.makes ⟨hinv.2.1, hpromise, hinv.2.2⟩ fun _ _ => Grows.refl world, ?_⟩
    rw [← heldBlocks_returned] at hholds
    exact hholds

/-- The blocks of the application that each context starts with. -/
def shareOf (history : List ListExchange) (share : Nat → Option Context) (context : Context) :
    List Nat :=
  (ownBlocks history).filter fun data => share data = some context

/-- Contexts start where the application has got to, each with a share of its
blocks. As long as no step takes away a block that another context has just
added for itself, every call that added a block succeeds, and no context is
ever stuck. -/
theorem growing_calls_succeed {history : List ListExchange} {state : State}
    (hrun : (listInterface target).Run history state)
    (hsound : ∀ exchange ∈ history, exchange.request.BlockSize target.Sound)
    (share : Nat → Option Context)
    {config : ClientConfig Context State Fault ListCall ListReply}
    (hreachable : (growthClients target (liveLists history) (shareOf history share)).Reachable
      state config)
    (hspare : FindsSpare target config.moves) (hsizes : SoundSizes target config.moves) :
    KeepsPromise target config.moves ∧ Clients.Live config := by
  obtain ⟨owner, views, lists, hat⟩ := RunAt.of_run hrun hsound
  let world : World Context := ⟨state, [], owner, views, lists, ownBlocks history,
    fun data => if data ∈ ownBlocks history then share data else none⟩
  have hshared : world.Shared target := by
    refine ⟨hat.memory, fun data context hholder => ?_⟩
    by_contra hnot
    rw [show world.holder data = none from if_neg hnot] at hholder
    cases hholder
  have hlive : ∀ list ∈ liveLists history, ∃ view ∈ lists, view.header = list :=
    fun list hlist => List.mem_map.mp (hat.live.mem_iff.mpr hlist)
  have hidle : ∀ context, (growth target (liveLists history) (shareOf history share)).idle context
      world := by
    intro context
    refine ⟨(List.nodup_append.mp hat.memory.nodup).2.1.filter _, fun data hdata => ?_⟩
    obtain ⟨hmem, hshare⟩ := List.mem_filter.mp hdata
    exact (if_pos hmem).trans (of_decide_eq_true hshare)
  obtain ⟨final, hagrees⟩ := growth_sound.reachable ⟨hshared, hlive, trivial⟩ rfl
    hidle hreachable ⟨hspare, hsizes⟩
  refine ⟨?_, hagrees.live⟩
  rw [← hagrees.moves]
  exact hagrees.inv.2.2

/-- Two contexts that allocate one after the other. -/
def undisturbedSchedule : List (Bool × Clients.Choice ListCall) :=
  [(true, .call (.pool (.allocateAuto 24))), (true, .step), (true, .step), (true, .step),
    (false, .call (.pool (.allocateAuto 24))), (true, .finish), (false, .step), (false, .step),
    (false, .step), (false, .step), (false, .finish)]

theorem growing_calls_succeed_undisturbed : ∃ config,
    (growthClients linux64 [] fun _ : Bool => []).Reachable .initial config ∧
      created false 24 config.moves.tail ∧ KeepsPromise linux64 config.moves ∧
        Clients.Live config := by
  let start : ClientConfig Bool State Fault ListCall ListReply := ⟨.initial, fun _ => none, []⟩
  have hschedule : ((growthClients linux64 [] fun _ : Bool => []).schedule start
      undisturbedSchedule).map (fun config => decide (created false 24 config.moves.tail ∧
        FindsSpare linux64 config.moves ∧ SoundSizes linux64 config.moves)) = some true := by
    decide +kernel
  obtain ⟨config, hconfig, hmoves⟩ := Option.map_eq_some_iff.mp hschedule
  obtain ⟨hcreated, hspare, hsizes⟩ := of_decide_eq_true hmoves
  have hreachable := Clients.steps_of_schedule hconfig
  exact ⟨config, hreachable, hcreated, growing_calls_succeed .start (by simp) (fun _ => none)
    hreachable hspare hsizes⟩

/-- The second context takes the block that the first has added for itself. -/
def disturbedSchedule : List (Bool × Clients.Choice ListCall) :=
  [(true, .call (.pool (.allocateAuto 24))), (true, .step), (true, .step),
    (false, .call (.pool (.allocateAuto 24))), (false, .step), (false, .step),
    (true, .step), (true, .finish)]

theorem growing_call_fails : ∃ config,
    (growthClients linux64 [] fun _ : Bool => []).Reachable .initial config ∧
      SoundSizes linux64 config.moves ∧ ¬ KeepsPromise linux64 config.moves := by
  let start : ClientConfig Bool State Fault ListCall ListReply := ⟨.initial, fun _ => none, []⟩
  have hschedule : ((growthClients linux64 [] fun _ : Bool => []).schedule start
      disturbedSchedule).map (fun config => decide (SoundSizes linux64 config.moves ∧
        ¬ KeepsPromise linux64 config.moves)) = some true := by
    decide +kernel
  obtain ⟨config, hconfig, hmoves⟩ := Option.map_eq_some_iff.mp hschedule
  exact ⟨config, Clients.steps_of_schedule hconfig, of_decide_eq_true hmoves⟩

end MicroTbx

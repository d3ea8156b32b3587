import MicroTbx.MemPool.Operations
import MicroTbx.Foundation.Chain
import MicroTbx.Foundation.BestFit

/-! # Where the pools lie in the heap

Every word of a pool has one owner: the pool, named by its block size, and the
part the word plays in it. Two words with different owners are different
words, which is what keeps the pools apart. The view of a pool lists the nodes
of its free list with the blocks they hold, the spare nodes of its used list,
and the blocks handed out; a spare node says nothing about a block.
-/

namespace MicroTbx

/-- The part a word plays in its pool. -/
inductive Part
  | poolNode (member : Nat)
  | pool (member : Nat)
  | freeList
  | usedList
  | blockNode (node : Nat) (member : Nat)
  | header (block : Nat)
  | data (block : Nat) (index : Nat)
  deriving DecidableEq

/-- The words that belong to the application while a block is handed out. -/
def Part.IsData : Part → Prop
  | .data _ _ => True
  | _ => False

/-- The words a pool itself depends on: not the data, nor the link to the next
pool, which belongs to the pool list. -/
def Part.IsOwn : Part → Prop
  | .data _ _ | .poolNode 1 => False
  | _ => True

theorem Part.IsOwn.not_data {part : Part} (hown : part.IsOwn) : ¬ part.IsData := by
  cases part with
  | data block index => exact absurd hown id
  | _ => exact id

/-- The words that list operations change. -/
def Part.IsList : Part → Prop
  | .freeList | .usedList | .blockNode _ _ => True
  | _ => False

theorem Part.IsData.not_list {part : Part} (hdata : part.IsData) : ¬ part.IsList := by
  cases part with
  | data block index => exact id
  | _ => exact absurd hdata id

/-- The owner of each word: the block size of a pool and a part of it. -/
abbrev Ownership := Nat → Option (Nat × Part)

/-- A pool as the invariant sees it. -/
structure PoolView where
  blockSize : Nat
  node : Nat
  pool : Nat
  freeList : Nat
  usedList : Nat
  /-- The nodes of the free list with the blocks they hold. -/
  free : List (Nat × Nat)
  /-- The nodes of the used list. -/
  used : List Nat
  /-- The blocks handed out. -/
  out : List Nat
  size_pos : 0 < blockSize
  nodes_nodup : (free.map Prod.fst ++ used).Nodup
  blocks_nodup : (free.map Prod.snd ++ out).Nodup
  counted : used.length = out.length

/-- Two views of one pool, which may differ in what the lists hold. -/
structure PoolView.Same (view other : PoolView) : Prop where
  blockSize : other.blockSize = view.blockSize
  node : other.node = view.node
  pool : other.pool = view.pool
  freeList : other.freeList = view.freeList
  usedList : other.usedList = view.usedList

namespace PoolView

variable (view : PoolView) {node block : Nat} {rest : List (Nat × Nat)} {spare : List Nat}

def nodes : List Nat := view.free.map Prod.fst ++ view.used

def blocks : List Nat := view.free.map Prod.snd ++ view.out

/-- The first free block is handed out and its node becomes a spare node. -/
@[simps]
def take (hfree : view.free = (node, block) :: rest) : PoolView where
  blockSize := view.blockSize
  node := view.node
  pool := view.pool
  freeList := view.freeList
  usedList := view.usedList
  free := rest
  used := node :: view.used
  out := block :: view.out
  size_pos := view.size_pos
  nodes_nodup := by
    have hnodup := view.nodes_nodup
    rw [hfree] at hnodup
    exact (List.perm_middle.nodup_iff).mpr hnodup
  blocks_nodup := by
    have hnodup := view.blocks_nodup
    rw [hfree] at hnodup
    exact (List.perm_middle.nodup_iff).mpr hnodup
  counted := by simp [view.counted]

/-- A block comes back in the first spare node. -/
@[simps]
def giveBack (hused : view.used = node :: spare) (hout : block ∈ view.out) : PoolView where
  blockSize := view.blockSize
  node := view.node
  pool := view.pool
  freeList := view.freeList
  usedList := view.usedList
  free := (node, block) :: view.free
  used := spare
  out := view.out.erase block
  size_pos := view.size_pos
  nodes_nodup := by
    have hnodup := view.nodes_nodup
    rw [hused] at hnodup
    exact (List.perm_middle.nodup_iff).mp hnodup
  blocks_nodup := by
    have hperm := List.perm_middle.symm.trans
      (List.Perm.append_left (view.free.map Prod.snd) (List.perm_cons_erase hout).symm)
    exact (hperm.nodup_iff).mpr view.blocks_nodup
  counted := by
    have hcounted := view.counted
    rw [hused, List.length_cons] at hcounted
    rw [List.length_erase_of_mem hout]
    omega

/-- A new block joins the free list. -/
@[simps]
def addBlock (hnode : node ∉ view.nodes) (hblock : block ∉ view.blocks) : PoolView where
  blockSize := view.blockSize
  node := view.node
  pool := view.pool
  freeList := view.freeList
  usedList := view.usedList
  free := (node, block) :: view.free
  used := view.used
  out := view.out
  size_pos := view.size_pos
  nodes_nodup := List.nodup_cons.mpr ⟨hnode, view.nodes_nodup⟩
  blocks_nodup := List.nodup_cons.mpr ⟨hblock, view.blocks_nodup⟩
  counted := view.counted

/-- A pool without blocks. -/
@[simps]
def empty (blockSize node pool freeList usedList : Nat) (size_pos : 0 < blockSize) : PoolView where
  blockSize := blockSize
  node := node
  pool := pool
  freeList := freeList
  usedList := usedList
  free := []
  used := []
  out := []
  size_pos := size_pos
  nodes_nodup := List.nodup_nil
  blocks_nodup := List.nodup_nil
  counted := rfl

theorem take_same (hfree : view.free = (node, block) :: rest) : view.Same (view.take hfree) :=
  ⟨rfl, rfl, rfl, rfl, rfl⟩

theorem giveBack_same (hused : view.used = node :: spare) (hout : block ∈ view.out) :
    view.Same (view.giveBack hused hout) :=
  ⟨rfl, rfl, rfl, rfl, rfl⟩

theorem addBlock_same (hnode : node ∉ view.nodes) (hblock : block ∉ view.blocks) :
    view.Same (view.addBlock hnode hblock) :=
  ⟨rfl, rfl, rfl, rfl, rfl⟩

theorem take_nodes (hfree : view.free = (node, block) :: rest) :
    (view.take hfree).nodes.Perm view.nodes := by
  simp only [nodes, take_free, take_used, hfree]
  exact List.perm_middle

theorem take_blocks (hfree : view.free = (node, block) :: rest) :
    (view.take hfree).blocks.Perm view.blocks := by
  simp only [blocks, take_free, take_out, hfree]
  exact List.perm_middle

theorem giveBack_nodes (hused : view.used = node :: spare) (hout : block ∈ view.out) :
    (view.giveBack hused hout).nodes.Perm view.nodes := by
  simp only [nodes, giveBack_free, giveBack_used, hused]
  exact List.perm_middle.symm

theorem giveBack_blocks (hused : view.used = node :: spare) (hout : block ∈ view.out) :
    (view.giveBack hused hout).blocks.Perm view.blocks := by
  simp only [blocks, giveBack_free, giveBack_out]
  exact List.perm_middle.symm.trans (List.Perm.append_left _ (List.perm_cons_erase hout).symm)

@[simp] theorem addBlock_nodes (hnode : node ∉ view.nodes) (hblock : block ∉ view.blocks) :
    (view.addBlock hnode hblock).nodes = node :: view.nodes := rfl

@[simp] theorem addBlock_blocks (hnode : node ∉ view.nodes) (hblock : block ∉ view.blocks) :
    (view.addBlock hnode hblock).blocks = block :: view.blocks := rfl

end PoolView

/-! ## One pool -/

variable (target : Target)

/-- The link of a block node and of a pool node. -/
def nextNode (mem : Nat → Nat) (node : Nat) : Nat := mem (target.field node 1)

/-- The nodes of the list that starts at a list head. -/
def BlockChain (mem : Nat → Nat) (listPtr : Nat) (nodes : List Nat) : Prop :=
  Chain.Linked (nextNode target mem) null (mem (target.field listPtr 0)) nodes

/-- The words of a pool belong to it. -/
structure PoolPlaced (owner : Ownership) (view : PoolView) : Prop where
  node : ∀ i < 2, owner (target.field view.node i) = some (view.blockSize, .poolNode i)
  pool : ∀ i < 3, owner (target.field view.pool i) = some (view.blockSize, .pool i)
  freeList : owner (target.field view.freeList 0) = some (view.blockSize, .freeList)
  usedList : owner (target.field view.usedList 0) = some (view.blockSize, .usedList)
  blockNode : ∀ node ∈ view.nodes, ∀ i < 2,
    owner (target.field node i) = some (view.blockSize, .blockNode node i)
  header : ∀ block ∈ view.blocks,
    owner (target.field block 0) = some (view.blockSize, .header block)
  data : ∀ block ∈ view.blocks, ∀ i, i * target.word < view.blockSize →
    owner (target.field block (i + 1)) = some (view.blockSize, .data block i)

/-- The memory of a pool holds what its view says. -/
structure PoolStored (mem : Nat → Nat) (view : PoolView) : Prop where
  poolPtr : mem (target.field view.node PoolNode.poolPtr) = view.pool
  blockSize : mem (target.field view.pool Pool.blockSize) = view.blockSize
  freeListPtr : mem (target.field view.pool Pool.freeBlockListPtr) = view.freeList
  usedListPtr : mem (target.field view.pool Pool.usedBlockListPtr) = view.usedList
  freeChain : BlockChain target mem view.freeList (view.free.map Prod.fst)
  usedChain : BlockChain target mem view.usedList view.used
  blockPtr : ∀ entry ∈ view.free, mem (target.field entry.1 BlockNode.blockPtr) = entry.2
  header : ∀ block ∈ view.blocks, mem (target.field block 0) = view.blockSize

variable {target} {owner larger : Ownership} {view : PoolView} {mem after : Nat → Nat}

theorem BlockChain.congr {listPtr : Nat} {nodes : List Nat}
    (hchain : BlockChain target mem listPtr nodes)
    (hhead : after (target.field listPtr 0) = mem (target.field listPtr 0))
    (hsame : ∀ node ∈ nodes, after (target.field node 1) = mem (target.field node 1)) :
    BlockChain target after listPtr nodes := by
  unfold BlockChain
  rw [hhead]
  exact Chain.Linked.congr hchain hsame

theorem PoolPlaced.mono (hplaced : PoolPlaced target owner view)
    (hlarger : ∀ address part, owner address = some part → larger address = some part) :
    PoolPlaced target larger view where
  node := fun i hi => hlarger _ _ (hplaced.node i hi)
  pool := fun i hi => hlarger _ _ (hplaced.pool i hi)
  freeList := hlarger _ _ hplaced.freeList
  usedList := hlarger _ _ hplaced.usedList
  blockNode := fun node hnode i hi => hlarger _ _ (hplaced.blockNode node hnode i hi)
  header := fun block hblock => hlarger _ _ (hplaced.header block hblock)
  data := fun block hblock i hi => hlarger _ _ (hplaced.data block hblock i hi)

/-- A pool is placed when its nodes and blocks are, in whatever order. -/
theorem PoolPlaced.congr {other : PoolView} (hplaced : PoolPlaced target owner view)
    (hsame : view.Same other) (hnodes : other.nodes.Perm view.nodes)
    (hblocks : other.blocks.Perm view.blocks) : PoolPlaced target owner other where
  node := by simpa only [hsame.blockSize, hsame.node] using hplaced.node
  pool := by simpa only [hsame.blockSize, hsame.pool] using hplaced.pool
  freeList := by simpa only [hsame.blockSize, hsame.freeList] using hplaced.freeList
  usedList := by simpa only [hsame.blockSize, hsame.usedList] using hplaced.usedList
  blockNode := by
    intro node hmem
    rw [hsame.blockSize]
    exact hplaced.blockNode node (hnodes.mem_iff.mp hmem)
  header := by
    intro block hmem
    rw [hsame.blockSize]
    exact hplaced.header block (hblocks.mem_iff.mp hmem)
  data := by
    intro block hmem
    rw [hsame.blockSize]
    exact hplaced.data block (hblocks.mem_iff.mp hmem)

theorem PoolView.mem_nodes_of_free {entry : Nat × Nat} (hentry : entry ∈ view.free) :
    entry.1 ∈ view.nodes := List.mem_append_left _ (List.mem_map_of_mem hentry)

theorem PoolView.mem_nodes_of_used {node : Nat} (hnode : node ∈ view.used) :
    node ∈ view.nodes := List.mem_append_right _ hnode

/-- Only the words a pool owns matter to it. -/
theorem PoolStored.frame (hstored : PoolStored target mem view)
    (hplaced : PoolPlaced target owner view)
    (hsame : ∀ address part, owner address = some (view.blockSize, part) → part.IsOwn →
      after address = mem address) : PoolStored target after view := by
  have hnode : ∀ node ∈ view.nodes, ∀ i < 2,
      after (target.field node i) = mem (target.field node i) :=
    fun node hmem i hi => hsame _ _ (hplaced.blockNode node hmem i hi) trivial
  have hfreeList := hsame _ _ hplaced.freeList trivial
  have husedList := hsame _ _ hplaced.usedList trivial
  refine ⟨?_, ?_, ?_, ?_, ?_, ?_, ?_, ?_⟩
  · rw [hsame _ _ (hplaced.node 0 (by norm_num)) trivial, hstored.poolPtr]
  · rw [hsame _ _ (hplaced.pool _ (by norm_num)) trivial, hstored.blockSize]
  · rw [hsame _ _ (hplaced.pool _ (by norm_num)) trivial, hstored.freeListPtr]
  · rw [hsame _ _ (hplaced.pool _ (by norm_num)) trivial, hstored.usedListPtr]
  · refine hstored.freeChain.congr hfreeList fun node hmem => ?_
    exact hnode node (List.mem_append_left _ hmem) 1 (by norm_num)
  · refine hstored.usedChain.congr husedList fun node hmem => ?_
    exact hnode node (PoolView.mem_nodes_of_used hmem) 1 (by norm_num)
  · intro entry hentry
    rw [hnode entry.1 (PoolView.mem_nodes_of_free hentry) 0 (by norm_num),
      hstored.blockPtr entry hentry]
  · intro block hblock
    rw [hsame _ _ (hplaced.header block hblock) trivial, hstored.header block hblock]

/-- Relinking the lists of a pool leaves the rest of it stored. -/
theorem PoolStored.relink {other : PoolView} (hstored : PoolStored target mem view)
    (hplaced : PoolPlaced target owner view) (hpool : view.Same other)
    (hsame : ∀ address part, owner address = some (view.blockSize, part) → ¬ part.IsList →
      after address = mem address)
    (hfree : BlockChain target after view.freeList (other.free.map Prod.fst))
    (hused : BlockChain target after view.usedList other.used)
    (hblockPtr : ∀ entry ∈ other.free, after (target.field entry.1 BlockNode.blockPtr) = entry.2)
    (hheader : ∀ block ∈ other.blocks, after (target.field block 0) = view.blockSize) :
    PoolStored target after other where
  poolPtr := by
    rw [hpool.node, hpool.pool, hsame _ _ (hplaced.node 0 (by norm_num)) id, hstored.poolPtr]
  blockSize := by
    rw [hpool.pool, hpool.blockSize, hsame _ _ (hplaced.pool 0 (by norm_num)) id,
      hstored.blockSize]
  freeListPtr := by
    rw [hpool.pool, hpool.freeList, hsame _ _ (hplaced.pool 1 (by norm_num)) id,
      hstored.freeListPtr]
  usedListPtr := by
    rw [hpool.pool, hpool.usedList, hsame _ _ (hplaced.pool 2 (by norm_num)) id,
      hstored.usedListPtr]
  freeChain := hpool.freeList ▸ hfree
  usedChain := hpool.usedList ▸ hused
  blockPtr := hblockPtr
  header := fun block hblock => by rw [hheader block hblock, hpool.blockSize]

/-- Words with different owners are different words. -/
theorem ne_of_owner {left right : Nat} {leftOwner rightOwner : Nat × Part}
    (hleft : owner left = some leftOwner) (hright : owner right = some rightOwner)
    (hne : leftOwner ≠ rightOwner) : left ≠ right := by
  rintro rfl
  rw [hleft] at hright
  exact hne (Option.some.inj hright)

namespace PoolPlaced

variable {node block : Nat}

theorem lists_ne (hplaced : PoolPlaced target owner view) :
    target.field view.freeList 0 ≠ target.field view.usedList 0 :=
  ne_of_owner hplaced.freeList hplaced.usedList (by simp)

theorem link_ne_freeList (hplaced : PoolPlaced target owner view) (hnode : node ∈ view.nodes) :
    target.field node 1 ≠ target.field view.freeList 0 :=
  ne_of_owner (hplaced.blockNode node hnode 1 (by norm_num)) hplaced.freeList (by simp)

theorem link_ne_usedList (hplaced : PoolPlaced target owner view) (hnode : node ∈ view.nodes) :
    target.field node 1 ≠ target.field view.usedList 0 :=
  ne_of_owner (hplaced.blockNode node hnode 1 (by norm_num)) hplaced.usedList (by simp)

theorem value_ne_link {other : Nat} (hplaced : PoolPlaced target owner view)
    (hnode : node ∈ view.nodes) (hother : other ∈ view.nodes) :
    target.field node 0 ≠ target.field other 1 :=
  ne_of_owner (hplaced.blockNode node hnode 0 (by norm_num))
    (hplaced.blockNode other hother 1 (by norm_num)) (by simp)

theorem value_ne_freeList (hplaced : PoolPlaced target owner view) (hnode : node ∈ view.nodes) :
    target.field node 0 ≠ target.field view.freeList 0 :=
  ne_of_owner (hplaced.blockNode node hnode 0 (by norm_num)) hplaced.freeList (by simp)

theorem value_ne_usedList (hplaced : PoolPlaced target owner view) (hnode : node ∈ view.nodes) :
    target.field node 0 ≠ target.field view.usedList 0 :=
  ne_of_owner (hplaced.blockNode node hnode 0 (by norm_num)) hplaced.usedList (by simp)

end PoolPlaced

end MicroTbx

import Mathlib.Data.List.Nodup
import Mathlib.Data.List.Basic
import Mathlib.Logic.Function.Basic

/-! # Chains through a link function

A linked structure is a function giving each node its successor. A segment is
a walk along that function through a known list of nodes; a chain is a segment
that ends in the terminator and does not pass through it. Changing the link of
a node that is not on a walk leaves the walk as it was.
-/

namespace Chain

variable {Node : Type*}

/-- Following `link` from `start` visits exactly `nodes` and arrives at `stop`. -/
def Segment (link : Node → Node) : Node → List Node → Node → Prop
  | start, [], stop => start = stop
  | start, node :: rest, stop => start = node ∧ Segment link (link node) rest stop

/-- A terminated walk: the nodes from `start` until the terminator. -/
def Linked (link : Node → Node) (terminator start : Node) (nodes : List Node) : Prop :=
  Segment link start nodes terminator ∧ terminator ∉ nodes

section Segments

variable {link other : Node → Node} {start stop : Node} {nodes front back : List Node}

@[simp] theorem segment_nil : Segment link start [] stop ↔ start = stop := Iff.rfl

@[simp] theorem segment_cons {node : Node} :
    Segment link start (node :: nodes) stop ↔
      start = node ∧ Segment link (link node) nodes stop := Iff.rfl

theorem segment_append :
    Segment link start (front ++ back) stop ↔
      ∃ middle, Segment link start front middle ∧ Segment link middle back stop := by
  induction front generalizing start with
  | nil => simp
  | cons node rest ih => simp [ih, and_assoc]

/-- Only the links of the visited nodes matter. -/
theorem Segment.congr (hsegment : Segment link start nodes stop)
    (hagree : ∀ node ∈ nodes, other node = link node) : Segment other start nodes stop := by
  induction nodes generalizing start with
  | nil => exact hsegment
  | cons node rest ih =>
      obtain ⟨hstart, hrest⟩ := hsegment
      refine ⟨hstart, ?_⟩
      rw [hagree node List.mem_cons_self]
      exact ih hrest fun later hlater => hagree later (List.mem_cons_of_mem _ hlater)

/-- A walk that splits around one of its nodes. -/
theorem segment_middle {node : Node} :
    Segment link start (front ++ node :: back) stop ↔
      Segment link start front node ∧ Segment link (link node) back stop := by
  simp [segment_append]

end Segments

section Terminated

variable {link other : Node → Node} {terminator start : Node} {nodes : List Node}

@[simp] theorem linked_nil : Linked link terminator start [] ↔ start = terminator := by
  simp [Linked]

@[simp] theorem linked_cons {node : Node} :
    Linked link terminator start (node :: nodes) ↔
      start = node ∧ node ≠ terminator ∧ Linked link terminator (link node) nodes := by
  simp only [Linked, segment_cons, List.mem_cons, not_or]
  constructor
  · rintro ⟨⟨hstart, hrest⟩, hne, hnot⟩
    exact ⟨hstart, Ne.symm hne, hrest, hnot⟩
  · rintro ⟨hstart, hne, hrest, hnot⟩
    exact ⟨⟨hstart, hrest⟩, Ne.symm hne, hnot⟩

theorem Linked.congr (hlinked : Linked link terminator start nodes)
    (hagree : ∀ node ∈ nodes, other node = link node) : Linked other terminator start nodes :=
  ⟨hlinked.1.congr hagree, hlinked.2⟩

/-- A chain is empty exactly when it starts at the terminator. -/
theorem Linked.nil_iff (hlinked : Linked link terminator start nodes) :
    nodes = [] ↔ start = terminator := by
  cases nodes with
  | nil => simpa using hlinked
  | cons node rest =>
      obtain ⟨rfl, hne, _⟩ := linked_cons.mp hlinked
      simp [hne]

/-- The link function determines the chain. -/
theorem Linked.unique {others : List Node} (hlinked : Linked link terminator start nodes)
    (hothers : Linked link terminator start others) : nodes = others := by
  induction nodes generalizing start others with
  | nil => exact (hothers.nil_iff.mpr (linked_nil.mp hlinked)).symm
  | cons node rest ih =>
      obtain ⟨rfl, hne, hrest⟩ := linked_cons.mp hlinked
      cases others with
      | nil => exact absurd (linked_nil.mp hothers) hne
      | cons other later =>
          obtain ⟨rfl, _, hlater⟩ := linked_cons.mp hothers
          rw [ih hrest hlater]

/-- Every node of a chain starts a chain of its own. -/
theorem Linked.tail {front back : List Node} {node : Node}
    (hlinked : Linked link terminator start (front ++ node :: back)) :
    Linked link terminator node (node :: back) := by
  obtain ⟨hsegment, hnot⟩ := hlinked
  refine ⟨⟨rfl, (segment_middle.mp hsegment).2⟩, ?_⟩
  intro hmem
  exact hnot (List.mem_append_right _ hmem)

/-- No node occurs twice on a terminated chain: after a repetition the walk
would go round for ever. -/
theorem Linked.nodup (hlinked : Linked link terminator start nodes) : nodes.Nodup := by
  induction nodes generalizing start with
  | nil => exact List.nodup_nil
  | cons node rest ih =>
      obtain ⟨rfl, hne, hrest⟩ := linked_cons.mp hlinked
      refine List.nodup_cons.mpr ⟨?_, ih hrest⟩
      intro hmem
      obtain ⟨front, back, rfl⟩ := List.append_of_mem hmem
      have hagain : Linked link terminator start (start :: back) := by
        change Linked link terminator start ((start :: front) ++ start :: back) at hlinked
        exact hlinked.tail
      have hlength := congrArg List.length (hlinked.unique hagain)
      simp at hlength
      omega

end Terminated

section Updates

variable [DecidableEq Node] {link : Node → Node} {terminator start stop : Node}
  {nodes front back : List Node}

/-- Relinking a node off the walk does not change it. -/
theorem Segment.update (hsegment : Segment link start nodes stop) {node target : Node}
    (hnot : node ∉ nodes) : Segment (Function.update link node target) start nodes stop :=
  hsegment.congr fun _ hvisited =>
    Function.update_of_ne (ne_of_mem_of_not_mem hvisited hnot) target link

/-- A new first node. -/
theorem Linked.insert_front {node : Node} (hlinked : Linked link terminator start nodes)
    (hne : node ≠ terminator) (hnew : node ∉ nodes) :
    Linked (Function.update link node start) terminator node (node :: nodes) := by
  refine linked_cons.mpr ⟨rfl, hne, ?_⟩
  rw [Function.update_self]
  exact ⟨hlinked.1.update hnew, hlinked.2⟩

/-- A new node behind a given one: first it is linked to what follows, then
its predecessor to it. -/
theorem Linked.insert_after {before node : Node}
    (hlinked : Linked link terminator start (front ++ before :: back)) (hne : node ≠ terminator)
    (hnew : node ∉ front ++ before :: back) :
    Linked (Function.update (Function.update link node (link before)) before node) terminator
      start (front ++ before :: node :: back) := by
  have hnodup := hlinked.nodup
  obtain ⟨hfrontNodup, hbackNodup, hdisjoint⟩ := List.nodup_append.mp hnodup
  obtain ⟨hsegment, hnot⟩ := hlinked
  obtain ⟨hfront, hback⟩ := segment_middle.mp hsegment
  rw [List.mem_append, List.mem_cons, not_or, not_or] at hnew
  obtain ⟨hnewFront, hnewBefore, hnewBack⟩ := hnew
  have hbeforeFront : before ∉ front := fun hmem =>
    hdisjoint before hmem before List.mem_cons_self rfl
  have hbeforeBack : before ∉ back := (List.nodup_cons.mp hbackNodup).1
  refine ⟨segment_middle.mpr ⟨(hfront.update hnewFront).update hbeforeFront, ?_⟩, ?_⟩
  · rw [Function.update_self]
    refine ⟨rfl, ?_⟩
    rw [Function.update_of_ne hnewBefore, Function.update_self]
    exact (hback.update hnewBack).update hbeforeBack
  · intro hmem
    rcases List.mem_append.mp hmem with hmem | hmem
    · exact hnot (List.mem_append_left _ hmem)
    · rcases List.mem_cons.mp hmem with rfl | hmem
      · exact hnot (List.mem_append_right _ List.mem_cons_self)
      · rcases List.mem_cons.mp hmem with rfl | hmem
        · exact hne rfl
        · exact hnot (List.mem_append_right _ (List.mem_cons_of_mem _ hmem))

end Updates

end Chain

import MicroTbx.Foundation.Chain

/-! # Chains linked in both directions

Two link functions, of which one runs through the nodes from first to last and
the other back. Inserting a node between two parts of the list and removing
one from between them change at most two links of other nodes: the forward
link in front of the place and the backward link behind it.
-/

namespace Chain

variable {Node : Type*} [DecidableEq Node]

section Splice

variable {link other : Node → Node} {terminator start entry : Node} {nodes front back : List Node}

omit [DecidableEq Node] in
/-- A chain starts at its first node, or at the terminator. -/
theorem Linked.start_eq (hlinked : Linked link terminator start nodes) :
    start = nodes.headD terminator := by
  cases nodes with
  | nil => exact linked_nil.mp hlinked
  | cons node rest => exact (linked_cons.mp hlinked).1

omit [DecidableEq Node] in
/-- What follows a part of a chain is a chain. -/
theorem Linked.suffix (hlinked : Linked link terminator start (front ++ back)) :
    Linked link terminator (back.headD terminator) back := by
  cases back with
  | nil => exact linked_nil.mpr rfl
  | cons node rest => exact hlinked.tail

omit [DecidableEq Node] in
/-- The link of a node points at what follows. -/
theorem Linked.link_eq {node : Node}
    (hlinked : Linked link terminator start (front ++ node :: back)) :
    link node = back.headD terminator :=
  (linked_cons.mp hlinked.tail).2.2.start_eq

/-- The middle of a chain is exchanged. Of the nodes outside only the last one
in front of it gets a new link. -/
theorem Linked.splice {middle inserted : List Node}
    (hlinked : Linked link terminator start (front ++ (middle ++ back)))
    (hinserted : Segment other ((inserted ++ back).headD terminator) inserted
      (back.headD terminator)) (hnot : terminator ∉ inserted)
    (hentry : entry = (front ++ (inserted ++ back)).headD terminator)
    (hfront : ∀ node ∈ front, other node =
      if front.getLast? = some node then (inserted ++ back).headD terminator else link node)
    (hback : ∀ node ∈ back, other node = link node) :
    Linked other terminator entry (front ++ (inserted ++ back)) := by
  induction front generalizing start entry with
  | nil =>
      rw [List.nil_append] at hlinked hentry ⊢
      obtain ⟨hsegment, hnotBack⟩ := hlinked.suffix.congr hback
      subst hentry
      refine ⟨segment_append.mpr ⟨_, hinserted, hsegment⟩, ?_⟩
      rw [List.mem_append]
      exact not_or.mpr ⟨hnot, hnotBack⟩
  | cons node rest ih =>
      have hnodup := hlinked.nodup
      obtain ⟨rfl, hne, hrest⟩ := linked_cons.mp hlinked
      have hlink := hfront start List.mem_cons_self
      refine linked_cons.mpr ⟨hentry, hne, ?_⟩
      cases rest with
      | nil =>
          rw [List.getLast?_singleton, if_pos rfl] at hlink
          exact ih hrest hlink (by simp)
      | cons second later =>
          -- The first of two nodes in front is not the last of them.
          have hnotLast : (start :: second :: later).getLast? ≠ some start := by
            rw [List.getLast?_cons_cons]
            intro hlast
            exact (List.nodup_cons.mp hnodup).1
              (List.mem_append_left _ (List.mem_of_getLast? hlast))
          rw [if_neg hnotLast] at hlink
          refine ih hrest (hlink.trans hrest.start_eq) fun other hother => ?_
          rw [hfront other (List.mem_cons_of_mem _ hother), List.getLast?_cons_cons]

omit [DecidableEq Node] in
/-- The last of several nodes does not depend on what is in front of them. -/
theorem getLastD_append_cons {node default other : Node} :
    (front ++ node :: back).getLastD default = (node :: back).getLastD other := by
  rw [List.getLastD_cons, List.getLastD_eq_getLast?, List.getLastD_eq_getLast?,
    List.getLast?_append, List.getLast?_cons]
  rfl

omit [DecidableEq Node] in
theorem getLast?_ne_of_mem_back {node : Node} (hnodup : (front ++ back).Nodup)
    (hnode : node ∈ back) : front.getLast? ≠ some node := by
  intro hlast
  exact (List.nodup_append.mp hnodup).2.2 node (List.mem_of_getLast? hlast) node hnode rfl

/-- A new node between two parts. -/
theorem Linked.insert {node : Node} (hlinked : Linked link terminator start (front ++ back))
    (hne : node ≠ terminator) (hnode : other node = back.headD terminator)
    (hothers : ∀ visited ∈ front ++ back, other visited =
      if front.getLast? = some visited then node else link visited)
    (hentry : entry = front.headD node) :
    Linked other terminator entry (front ++ node :: back) := by
  have hback : ∀ visited ∈ back, other visited = link visited := by
    intro visited hvisited
    rw [hothers visited (List.mem_append_right _ hvisited),
      if_neg (getLast?_ne_of_mem_back hlinked.nodup hvisited)]
  refine @Linked.splice _ _ link other terminator start entry front back [] [node] hlinked
    ⟨rfl, hnode⟩ ?_ ?_ (fun visited hvisited => ?_) hback
  · rw [List.mem_singleton]
    exact hne.symm
  · rw [hentry]
    cases front with
    | nil => rfl
    | cons head rest => rfl
  · exact hothers visited (List.mem_append_left _ hvisited)

/-- The node between two parts is taken out. -/
theorem Linked.remove {node : Node}
    (hlinked : Linked link terminator start (front ++ node :: back))
    (hothers : ∀ visited ∈ front ++ back, other visited =
      if front.getLast? = some visited then back.headD terminator else link visited)
    (hentry : entry = (front ++ back).headD terminator) :
    Linked other terminator entry (front ++ back) := by
  have hback : ∀ visited ∈ back, other visited = link visited := by
    intro visited hvisited
    rw [hothers visited (List.mem_append_right _ hvisited),
      if_neg (getLast?_ne_of_mem_back hlinked.nodup (List.mem_cons_of_mem _ hvisited))]
  refine @Linked.splice _ _ link other terminator start entry front back [node] [] hlinked
    rfl List.not_mem_nil hentry (fun visited hvisited => ?_) hback
  exact hothers visited (List.mem_append_left _ hvisited)

end Splice

/-- Following `next` from `first` visits the nodes, and following `prev` from
`last` visits them in the opposite order. -/
structure DoublyLinked (next prev : Node → Node) (terminator first last : Node)
    (nodes : List Node) : Prop where
  forward : Linked next terminator first nodes
  backward : Linked prev terminator last nodes.reverse

namespace DoublyLinked

variable {next prev next' prev' : Node → Node} {terminator first last first' last' node : Node}
  {nodes front back : List Node}

omit [DecidableEq Node]

theorem nodup (hlinked : DoublyLinked next prev terminator first last nodes) : nodes.Nodup :=
  hlinked.forward.nodup

theorem first_eq (hlinked : DoublyLinked next prev terminator first last nodes) :
    first = nodes.headD terminator := hlinked.forward.start_eq

theorem last_eq (hlinked : DoublyLinked next prev terminator first last nodes) :
    last = nodes.getLastD terminator := by
  rw [hlinked.backward.start_eq]
  simp

theorem next_eq
    (hlinked : DoublyLinked next prev terminator first last (front ++ node :: back)) :
    next node = back.headD terminator := hlinked.forward.link_eq

theorem prev_eq
    (hlinked : DoublyLinked next prev terminator first last (front ++ node :: back)) :
    prev node = front.getLastD terminator := by
  have hbackward := hlinked.backward
  rw [List.reverse_append, List.reverse_cons, List.append_assoc] at hbackward
  rw [Linked.link_eq hbackward]
  simp

theorem congr (hlinked : DoublyLinked next prev terminator first last nodes)
    (hnext : ∀ node ∈ nodes, next' node = next node)
    (hprev : ∀ node ∈ nodes, prev' node = prev node) :
    DoublyLinked next' prev' terminator first last nodes where
  forward := hlinked.forward.congr hnext
  backward := hlinked.backward.congr fun node hnode => hprev node (List.mem_reverse.mp hnode)

variable [DecidableEq Node]

/-- A new node between two parts. -/
theorem insert (hlinked : DoublyLinked next prev terminator first last (front ++ back))
    (hne : node ≠ terminator) (hnextNode : next' node = back.headD terminator)
    (hprevNode : prev' node = front.getLastD terminator)
    (hnext : ∀ other ∈ front ++ back, next' other =
      if front.getLast? = some other then node else next other)
    (hprev : ∀ other ∈ front ++ back, prev' other =
      if back.head? = some other then node else prev other)
    (hfirst : first' = front.headD node) (hlast : last' = back.getLastD node) :
    DoublyLinked next' prev' terminator first' last' (front ++ node :: back) where
  forward := hlinked.forward.insert hne hnextNode hnext hfirst
  backward := by
    have hbackward := hlinked.backward
    rw [List.reverse_append] at hbackward
    rw [List.reverse_append, List.reverse_cons, List.append_assoc]
    refine hbackward.insert hne ?_ (fun other hother => ?_) ?_
    · simpa using hprevNode
    · rw [← List.reverse_append, List.mem_reverse] at hother
      simpa using hprev other hother
    · simpa using hlast

/-- The node between two parts is taken out. -/
theorem remove (hlinked : DoublyLinked next prev terminator first last (front ++ node :: back))
    (hnext : ∀ other ∈ front ++ back, next' other =
      if front.getLast? = some other then back.headD terminator else next other)
    (hprev : ∀ other ∈ front ++ back, prev' other =
      if back.head? = some other then front.getLastD terminator else prev other)
    (hfirst : first' = (front ++ back).headD terminator)
    (hlast : last' = (front ++ back).getLastD terminator) :
    DoublyLinked next' prev' terminator first' last' (front ++ back) where
  forward := hlinked.forward.remove hnext hfirst
  backward := by
    have hbackward := hlinked.backward
    rw [List.reverse_append, List.reverse_cons, List.append_assoc, List.singleton_append]
      at hbackward
    rw [List.reverse_append]
    refine hbackward.remove (fun other hother => ?_) ?_
    · rw [← List.reverse_append, List.mem_reverse] at hother
      simpa using hprev other hother
    · rw [← List.reverse_append]
      simpa using hlast

end DoublyLinked

end Chain

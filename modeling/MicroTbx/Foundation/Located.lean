import Mathlib.Data.List.Basic
import Mathlib.Logic.Relation
import Mathlib.Order.Lattice
import Mathlib.Tactic.Basic
import Mathlib.Tactic.Simps.Basic

/-! # Tasks that look for a place and change it later

Two agents share an object. The task of each looks for a place in the object
and changes the object there in a later step. In between a task may need a unit
of some supply: it takes one from the stock, or if there is none it has one
made and takes it then. Other tasks add to the stock after their change. As
long as every change finds its place, and nobody takes a unit that another one
had made, all interleavings end as if one task was done after the other.
-/

namespace Located

variable {Object : Type*}

/-- A task with the objects it finds its place in. `adds` is set for the tasks
that need no unit. -/
structure Task (Object : Type*) where
  present : Object → Prop
  change : Object → Object
  adds : Bool

/-- How far an agent is with its task. -/
inductive Phase
  | waiting
  | missed
  | located
  | refused
  | awaiting
  | failed
  | holding
  | changed
  | added
  deriving DecidableEq

namespace Phase

/-- The agent has changed the object. -/
def Done (phase : Phase) : Prop := phase = .changed ∨ phase = .added

instance (phase : Phase) : Decidable phase.Done := inferInstanceAs (Decidable (_ ∨ _))

/-- The agent has not touched the supply. -/
def Untouched (phase : Phase) : Prop :=
  phase = .waiting ∨ phase = .missed ∨ phase = .located

/-- The agent did not get so far as to have a unit made. -/
def Waits (phase : Phase) : Prop :=
  phase = .waiting ∨ phase = .located ∨ phase = .refused

/-- The agent has nothing left to do. -/
def Over (adds : Bool) (phase : Phase) : Prop :=
  phase = .missed ∨ phase = .failed ∨ phase = if adds then .added else .changed

/-- Agents with a task of this kind can be in this phase. -/
def Suits (adds : Bool) : Phase → Prop
  | .waiting | .missed | .located | .changed => True
  | .refused | .awaiting | .failed | .holding => adds = false
  | .added => adds = true

/-- Units that the agent has taken. -/
def taken (adds : Bool) : Phase → Nat
  | .holding => 1
  | .changed => if adds then 0 else 1
  | _ => 0

/-- Units that the agent had made and did not take yet. -/
def awaited : Phase → Nat
  | .awaiting => 1
  | _ => 0

end Phase

/-- The object, the stock, how many units can still be made, and what the
agents did so far: `order` has those who changed the object, the newest first,
and `gained` is what was added to the stock. -/
structure Bench (Object : Type*) where
  object : Object
  stock : Nat
  makeable : Nat
  phase : Bool → Phase
  order : List Bool
  gained : Nat

/-- Nobody has done anything yet. -/
def Bench.fresh (object : Object) (stock makeable : Nat) : Bench Object :=
  ⟨object, stock, makeable, fun _ => .waiting, [], 0⟩

/-- An agent enters a phase. -/
@[simps object stock makeable order gained]
def Bench.enter (bench : Bench Object) (agent : Bool) (phase : Phase) : Bench Object :=
  { bench with phase := Function.update bench.phase agent phase }

section Definitions

variable (tasks : Bool → Task Object) (gain : Bool → Nat)

/-- A step of an agent. What an agent adds is known where it changed the object
first and the other one did not touch the stock. -/
inductive Step (agent : Bool) : Bench Object → Bench Object → Prop
  | miss {bench : Bench Object} (phase : bench.phase agent = .waiting)
      (absent : ¬ (tasks agent).present bench.object) :
      Step agent bench (bench.enter agent .missed)
  | locate {bench : Bench Object} (phase : bench.phase agent = .waiting)
      (present : (tasks agent).present bench.object) :
      Step agent bench (bench.enter agent .located)
  | refuse {bench : Bench Object} (phase : bench.phase agent = .located)
      (needs : (tasks agent).adds = false) (empty : bench.stock = 0) :
      Step agent bench (bench.enter agent .refused)
  | take {bench : Bench Object} {rest : Nat} (phase : bench.phase agent = .located)
      (needs : (tasks agent).adds = false) (stocked : bench.stock = rest + 1) :
      Step agent bench { bench.enter agent .holding with stock := rest }
  | make {bench : Bench Object} {stock makeable : Nat} (phase : bench.phase agent = .refused)
      (some : bench.makeable = makeable + 1) (pos : 0 < stock) (le : stock ≤ bench.stock + 1) :
      Step agent bench { bench.enter agent .awaiting with stock := stock, makeable := makeable }
  | fail {bench : Bench Object} {stock : Nat} (phase : bench.phase agent = .refused)
      (none : bench.makeable = 0) (le : stock ≤ bench.stock) :
      Step agent bench { bench.enter agent .failed with stock := stock }
  | takeMade {bench : Bench Object} {rest : Nat} (phase : bench.phase agent = .awaiting)
      (stocked : bench.stock = rest + 1) :
      Step agent bench { bench.enter agent .holding with stock := rest }
  | change {bench : Bench Object}
      (phase : bench.phase agent = if (tasks agent).adds then .located else .holding)
      (present : (tasks agent).present bench.object) :
      Step agent bench { bench.enter agent .changed with
        object := (tasks agent).change bench.object, order := agent :: bench.order }
  | add {bench : Bench Object} {amount : Nat} (phase : bench.phase agent = .changed)
      (adds : (tasks agent).adds = true)
      (known : bench.order = [agent] → (bench.phase (!agent)).Untouched → amount = gain agent) :
      Step agent bench { bench.enter agent .added with
        stock := bench.stock + amount, gained := bench.gained + amount }

/-- What can happen before and between the steps of the agents. -/
def Reaches : Bench Object → Bench Object → Prop :=
  Relation.ReflTransGen fun bench next => ∃ agent, Step tasks gain agent bench next

end Definitions

/-- A task is done while nobody else is at work: whether it changed the object,
and the object and supply that it left. -/
inductive Alone (task : Task Object) (gain : Nat) (object : Object) (supply : Nat) :
    Bool → Object → Nat → Prop
  | taken {rest : Nat} (present : task.present object) (needs : task.adds = false)
      (some : supply = rest + 1) : Alone task gain object supply true (task.change object) rest
  | added (present : task.present object) (adds : task.adds = true) :
      Alone task gain object supply true (task.change object) (supply + gain)
  | absent (absent : ¬ task.present object) : Alone task gain object supply false object supply
  | refused (needs : task.adds = false) (none : supply = 0) :
      Alone task gain object supply false object supply

/-- What a task does when alone is told by where it starts. -/
theorem Alone.unique {task : Task Object} {gain amount supply left right : Nat}
    {object first second : Object} {changed changes : Bool}
    (hfirst : Alone task gain object supply changed first left)
    (hsecond : Alone task amount object supply changes second right) :
    changed = changes ∧ first = second ∧ (gain = amount → left = right) := by
  cases hfirst <;> cases hsecond <;> simp_all

section Definitions

variable (tasks : Bool → Task Object) (gain : Bool → Nat)

/-- The object after the changes of some agents, the newest first. -/
def replay (start : Object) : List Bool → Object
  | [] => start
  | agent :: earlier => (tasks agent).change (replay start earlier)

/-- What the agents know of the object. -/
structure Changes (start : Object) (bench : Bench Object) : Prop where
  suits : ∀ agent, (bench.phase agent).Suits (tasks agent).adds
  nodup : bench.order.Nodup
  done : ∀ agent, agent ∈ bench.order ↔ (bench.phase agent).Done
  object : bench.object = replay tasks start bench.order
  present : ∀ agent earlier, agent :: earlier <:+ bench.order →
    (tasks agent).present (replay tasks start earlier)
  missed : ∀ agent, bench.phase agent = .missed →
    ∃ earlier, earlier <:+ bench.order ∧ ¬ (tasks agent).present (replay tasks start earlier)

/-- What an agent in the phase `mine` knows of the supply. The other agent adds
`gain` to the stock if it is the first one to change the object. -/
structure Fair (supply gain : Nat) (adds otherAdds : Bool) (otherFirst : Prop)
    (stock makeable gained : Nat) (mine other : Phase) : Prop where
  upper : stock + makeable + mine.taken adds + other.taken otherAdds ≤ supply + gained
  within : makeable ≤ supply
  /-- Nothing was lost for an agent that can still fail. -/
  lower : adds = false → mine.Waits →
    supply + gained ≤ stock + makeable + other.taken otherAdds
  refused : mine = .refused → stock ≤ other.awaited + gained
  failed : mine = .failed → supply ≤ other.awaited + other.taken otherAdds
  served : mine = .awaiting ∨ mine = .holding ∨ mine = .changed ∧ adds = false →
    0 < supply ∨ otherFirst ∧ otherAdds = true ∧ 0 < gain
  source : 0 < gained → mine = .added ∨ other = .added
  known : other = .added → mine.Untouched → gained ≤ gain

/-- What both agents know of the supply. -/
def Supplied (supply : Nat) (bench : Bench Object) : Prop :=
  ∀ agent, Fair supply (gain (!agent)) (tasks agent).adds (tasks (!agent)).adds
    (bench.order.getLast? = some (!agent)) bench.stock bench.makeable bench.gained
    (bench.phase agent) (bench.phase (!agent))

end Definitions

variable {tasks : Bool → Task Object} {gain : Bool → Nat} {start : Object}
  {bench next : Bench Object} {agent : Bool}

/-! ## The object -/

/-- An agent enters a phase and the object stays as it is. -/
theorem Changes.enter {phase : Phase} (hchanges : Changes tasks start bench)
    (hobject : next.object = bench.object) (horder : next.order = bench.order)
    (hphase : next.phase = Function.update bench.phase agent phase)
    (hsuits : phase.Suits (tasks agent).adds)
    (hdone : phase.Done ↔ (bench.phase agent).Done)
    (hmissed : phase = .missed → ¬ (tasks agent).present bench.object) :
    Changes tasks start next := by
  obtain ⟨suits, nodup, done, object, present, missed⟩ := hchanges
  refine ⟨fun other => ?_, horder ▸ nodup, fun other => ?_, ?_, horder ▸ present, fun other => ?_⟩
  · rw [hphase]
    by_cases heq : other = agent
    · subst heq
      rwa [Function.update_self]
    · rw [Function.update_of_ne heq]
      exact suits other
  · rw [horder, hphase, done]
    by_cases heq : other = agent
    · subst heq
      rw [Function.update_self, hdone]
    · rw [Function.update_of_ne heq]
  · rw [hobject, horder, object]
  · rw [horder, hphase]
    by_cases heq : other = agent
    · subst heq
      rw [Function.update_self]
      exact fun hnew => ⟨bench.order, List.suffix_rfl, object ▸ hmissed hnew⟩
    · rw [Function.update_of_ne heq]
      exact missed other

/-- An agent that changes the object becomes the last one to have done so. -/
theorem Changes.change (hchanges : Changes tasks start bench)
    (hphase : ¬ (bench.phase agent).Done) (hpresent : (tasks agent).present bench.object) :
    Changes tasks start { bench.enter agent .changed with
      object := (tasks agent).change bench.object, order := agent :: bench.order } := by
  obtain ⟨suits, nodup, done, object, present, missed⟩ := hchanges
  have hnew : agent ∉ bench.order := mt (done agent).mp hphase
  constructor
  · intro other
    dsimp only [Bench.enter]
    by_cases heq : other = agent
    · subst heq
      rw [Function.update_self]
      trivial
    · rw [Function.update_of_ne heq]
      exact suits other
  · exact List.nodup_cons.mpr ⟨hnew, nodup⟩
  · intro other
    dsimp only [Bench.enter]
    by_cases heq : other = agent
    · subst heq
      rw [Function.update_self]
      exact iff_of_true List.mem_cons_self (.inl rfl)
    · rw [Function.update_of_ne heq, List.mem_cons, or_iff_right heq]
      exact done other
  · exact congrArg (tasks agent).change object
  · intro other earlier hsuffix
    rcases List.suffix_cons_iff.mp hsuffix with heq | hearlier
    · cases heq
      exact object ▸ hpresent
    · exact present other earlier hearlier
  · intro other
    dsimp only [Bench.enter]
    by_cases heq : other = agent
    · subst heq
      rw [Function.update_self]
      exact fun hfalse => by cases hfalse
    · rw [Function.update_of_ne heq]
      intro hother
      obtain ⟨earlier, hsuffix, habsent⟩ := missed other hother
      exact ⟨earlier, hsuffix.trans (List.suffix_cons _ _), habsent⟩

theorem Changes.step (hchanges : Changes tasks start bench)
    (hstep : Step tasks gain agent bench next) : Changes tasks start next := by
  cases hstep with
  | miss phase absent =>
      exact hchanges.enter rfl rfl rfl trivial (by simp [Phase.Done, phase]) fun _ => absent
  | locate phase present =>
      exact hchanges.enter rfl rfl rfl trivial (by simp [Phase.Done, phase]) (by simp)
  | refuse phase needs empty =>
      exact hchanges.enter rfl rfl rfl needs (by simp [Phase.Done, phase]) (by simp)
  | take phase needs stocked =>
      exact hchanges.enter rfl rfl rfl needs (by simp [Phase.Done, phase]) (by simp)
  | make phase some pos le =>
      have hneeds := hchanges.suits agent
      rw [phase] at hneeds
      exact hchanges.enter rfl rfl rfl hneeds (by simp [Phase.Done, phase]) (by simp)
  | fail phase none le =>
      have hneeds := hchanges.suits agent
      rw [phase] at hneeds
      exact hchanges.enter rfl rfl rfl hneeds (by simp [Phase.Done, phase]) (by simp)
  | takeMade phase stocked =>
      have hneeds := hchanges.suits agent
      rw [phase] at hneeds
      exact hchanges.enter rfl rfl rfl hneeds (by simp [Phase.Done, phase]) (by simp)
  | add phase adds known =>
      exact hchanges.enter rfl rfl rfl adds (by simp [Phase.Done, phase]) (by simp)
  | change phase present =>
      apply hchanges.change _ present
      rw [phase]
      split <;> simp [Phase.Done]

/-- Only one agent has changed the object. -/
theorem Changes.order_eq (agent : Bool) (hchanges : Changes tasks start bench)
    (hdone : (bench.phase agent).Done) (hother : ¬ (bench.phase (!agent)).Done) :
    bench.order = [agent] := by
  have hmem := (hchanges.done agent).mpr hdone
  have hall : ∀ other ∈ bench.order, other = agent := by
    intro other hmem
    by_contra hne
    rw [Bool.eq_not.mpr hne] at hmem
    exact hother ((hchanges.done _).mp hmem)
  have hrepeat := List.eq_replicate_of_mem hall
  have hnodup := hchanges.nodup
  rw [hrepeat, List.nodup_replicate] at hnodup
  have hpos := List.length_pos_of_mem hmem
  rw [hrepeat, Nat.le_antisymm hnodup hpos]
  rfl

/-! ## The supply -/

namespace Fair

variable {supply amount stock makeable gained stock' makeable' gained' rest : Nat}
  {adds otherAdds : Bool} {first later : Prop} {mine other mine' other' : Phase}

/-- What the other agent does. It may lose something only when this agent has
nothing to lose any more. -/
theorem other_step
    (hfair : Fair supply amount adds otherAdds first stock makeable gained mine other)
    (hupper : stock' + makeable' + other'.taken otherAdds + gained ≤
      stock + makeable + other.taken otherAdds + gained')
    (hwithin : makeable' ≤ makeable)
    (hlower : adds = false → mine.Waits → stock + makeable + other.taken otherAdds + gained' ≤
      stock' + makeable' + other'.taken otherAdds + gained)
    (hstock : stock' + other.awaited + gained ≤ stock + other'.awaited + gained')
    (hserved : other.awaited + other.taken otherAdds ≤ other'.awaited + other'.taken otherAdds)
    (hsource : 0 < gained' → mine = .added ∨ other' = .added)
    (hknown : other' = .added → mine.Untouched → gained' ≤ amount) :
    Fair supply amount adds otherAdds first stock' makeable' gained' mine other' where
  upper := by
    have := hfair.upper
    omega
  within := le_trans hwithin hfair.within
  lower := by
    intro hneeds hwaits
    have := hfair.lower hneeds hwaits
    have := hlower hneeds hwaits
    omega
  refused := by
    intro hrefused
    have := hfair.refused hrefused
    omega
  failed := fun hfailed => le_trans (hfair.failed hfailed) hserved
  served := hfair.served
  source := hsource
  known := hknown

/-- The other agent enters a phase and leaves the supply alone. -/
theorem other_enter
    (hfair : Fair supply amount adds otherAdds first stock makeable gained mine other)
    (htaken : other'.taken otherAdds = other.taken otherAdds)
    (hawaited : other'.awaited = other.awaited) (hadded : other ≠ .added) (hnew : other' ≠ .added) :
    Fair supply amount adds otherAdds first stock makeable gained mine other' := by
  apply hfair.other_step (by rw [htaken]) le_rfl (fun _ _ => by rw [htaken]) (by rw [hawaited])
    (by rw [htaken, hawaited])
  · exact fun hgained => .inl ((hfair.source hgained).resolve_right hadded)
  · exact fun heq => absurd heq hnew

/-- The agent enters a phase and leaves the supply alone. -/
theorem enter
    (hfair : Fair supply amount adds otherAdds first stock makeable gained mine other)
    (htaken : mine'.taken adds = mine.taken adds) (hwaits : mine'.Waits → mine.Waits)
    (hrefused : mine' ≠ .refused) (hfailed : mine' ≠ .failed)
    (hserved : mine' = .awaiting ∨ mine' = .holding ∨ mine' = .changed ∧ adds = false →
      mine = .holding)
    (hadded : mine ≠ .added) (huntouched : mine'.Untouched → mine.Untouched) :
    Fair supply amount adds otherAdds first stock makeable gained mine' other where
  upper := htaken ▸ hfair.upper
  within := hfair.within
  lower := fun hneeds hnew => hfair.lower hneeds (hwaits hnew)
  refused := fun heq => absurd heq hrefused
  failed := fun heq => absurd heq hfailed
  served := fun hnew => hfair.served (.inr (.inl (hserved hnew)))
  source := fun hgained => .inr ((hfair.source hgained).resolve_left hadded)
  known := fun hother hnew => hfair.known hother (huntouched hnew)

theorem refuse
    (hfair : Fair supply amount adds otherAdds first 0 makeable gained .located other) :
    Fair supply amount adds otherAdds first 0 makeable gained .refused other where
  upper := hfair.upper
  within := hfair.within
  lower := fun hneeds _ => hfair.lower hneeds (.inr (.inl rfl))
  refused := fun _ => Nat.zero_le _
  failed := fun heq => by cases heq
  served := by simp
  source := fun hgained => .inr ((hfair.source hgained).resolve_left (by simp))
  known := by simp [Phase.Untouched]

/-- A unit is taken from the stock of the start, or it is one that the other
agent added. -/
theorem take (hfair : Fair supply amount adds otherAdds first (rest + 1) makeable gained .located
      other) (hfirst : other = .added → first ∧ otherAdds = true) :
    Fair supply amount adds otherAdds first rest makeable gained .holding other where
  upper := by
    have hupper : rest + 1 + makeable + 0 + other.taken otherAdds ≤ supply + gained := hfair.upper
    change rest + makeable + 1 + _ ≤ _
    omega
  within := hfair.within
  lower := by simp [Phase.Waits]
  refused := by simp
  failed := by simp
  served := by
    intro _
    have hupper : rest + 1 + makeable + 0 + other.taken otherAdds ≤ supply + gained := hfair.upper
    rcases Nat.eq_zero_or_pos gained with hnone | hgained
    · left
      omega
    · have hadded := (hfair.source hgained).resolve_left (by simp)
      obtain ⟨hbefore, hadds⟩ := hfirst hadded
      exact .inr ⟨hbefore, hadds,
        lt_of_lt_of_le hgained (hfair.known hadded (.inr (.inr rfl)))⟩
  source := fun hgained => .inr ((hfair.source hgained).resolve_left (by simp))
  known := by simp [Phase.Untouched]

theorem other_take
    (hfair : Fair supply amount adds otherAdds first (rest + 1) makeable gained mine other)
    (htaken : other.taken otherAdds = 0) (hawaited : other.awaited ≤ 1) (hadded : other ≠ .added) :
    Fair supply amount adds otherAdds first rest makeable gained mine .holding := by
  have hnew : Phase.holding.taken otherAdds = 1 := rfl
  have hnone : Phase.holding.awaited = 0 := rfl
  apply hfair.other_step _ le_rfl
  · intro _ _
    omega
  · omega
  · omega
  · exact fun hgained => .inl ((hfair.source hgained).resolve_right hadded)
  · simp
  · omega

theorem make (hfair : Fair supply amount adds otherAdds first stock (makeable + 1) gained .refused
      other) (hle : stock' ≤ stock + 1) :
    Fair supply amount adds otherAdds first stock' makeable gained .awaiting other where
  upper := by
    have hupper : stock + (makeable + 1) + 0 + other.taken otherAdds ≤ supply + gained :=
      hfair.upper
    change stock' + makeable + 0 + _ ≤ _
    omega
  within := le_trans (Nat.le_succ _) hfair.within
  lower := by simp [Phase.Waits]
  refused := by simp
  failed := by simp
  served := fun _ => .inl (lt_of_lt_of_le (Nat.succ_pos _) hfair.within)
  source := fun hgained => .inr ((hfair.source hgained).resolve_left (by simp))
  known := by simp [Phase.Untouched]

/-- Where this agent may still fail the stock was empty, so that all of it was
made. -/
theorem other_make
    (hfair : Fair supply amount adds otherAdds first stock (makeable + 1) gained mine .refused)
    (hempty : adds = false → mine.Waits → stock = 0) (hpos : 0 < stock') (hle : stock' ≤ stock + 1) :
    Fair supply amount adds otherAdds first stock' makeable gained mine .awaiting := by
  have hnone : Phase.refused.taken otherAdds = 0 ∧ Phase.awaiting.taken otherAdds = 0 := ⟨rfl, rfl⟩
  have hawaited : Phase.refused.awaited = 0 ∧ Phase.awaiting.awaited = 1 := ⟨rfl, rfl⟩
  apply hfair.other_step _ (Nat.le_succ _)
  · intro hneeds hwaits
    have := hempty hneeds hwaits
    omega
  · omega
  · omega
  · exact fun hgained => .inl ((hfair.source hgained).resolve_right (by simp))
  · simp
  · omega

/-- Neither the stock nor what can be made serves the agent. -/
theorem fail (hfair : Fair supply amount adds otherAdds first stock 0 gained .refused other)
    (hneeds : adds = false) (hle : stock' ≤ stock) :
    Fair supply amount adds otherAdds first stock' 0 gained .failed other where
  upper := by
    have hupper : stock + 0 + 0 + other.taken otherAdds ≤ supply + gained := hfair.upper
    change stock' + 0 + 0 + _ ≤ _
    omega
  within := hfair.within
  lower := by simp [Phase.Waits]
  refused := by simp
  failed := by
    intro _
    have hlower := hfair.lower hneeds (.inr (.inr rfl))
    have hrefused := hfair.refused rfl
    omega
  served := by simp
  source := fun hgained => .inr ((hfair.source hgained).resolve_left (by simp))
  known := by simp [Phase.Untouched]

theorem other_fail
    (hfair : Fair supply amount adds otherAdds first stock 0 gained mine .refused)
    (hempty : adds = false → mine.Waits → stock = 0) (hle : stock' ≤ stock) :
    Fair supply amount adds otherAdds first stock' 0 gained mine .failed := by
  have hnone : Phase.refused.taken otherAdds = 0 ∧ Phase.failed.taken otherAdds = 0 := ⟨rfl, rfl⟩
  have hawaited : Phase.refused.awaited = 0 ∧ Phase.failed.awaited = 0 := ⟨rfl, rfl⟩
  apply hfair.other_step _ le_rfl
  · intro hneeds hwaits
    have := hempty hneeds hwaits
    omega
  · omega
  · omega
  · exact fun hgained => .inl ((hfair.source hgained).resolve_right (by simp))
  · simp
  · omega

theorem takeMade
    (hfair : Fair supply amount adds otherAdds first (rest + 1) makeable gained .awaiting other) :
    Fair supply amount adds otherAdds first rest makeable gained .holding other where
  upper := by
    have hupper : rest + 1 + makeable + 0 + other.taken otherAdds ≤ supply + gained := hfair.upper
    change rest + makeable + 1 + _ ≤ _
    omega
  within := hfair.within
  lower := by simp [Phase.Waits]
  refused := by simp
  failed := by simp
  served := fun _ => hfair.served (.inl rfl)
  source := fun hgained => .inr ((hfair.source hgained).resolve_left (by simp))
  known := by simp [Phase.Untouched]

theorem add {extra : Nat}
    (hfair : Fair supply amount true otherAdds first stock makeable gained .changed other) :
    Fair supply amount true otherAdds first (stock + extra) makeable (gained + extra) .added
      other where
  upper := by
    have hupper : stock + makeable + 0 + other.taken otherAdds ≤ supply + gained := hfair.upper
    change stock + extra + makeable + 0 + _ ≤ _
    omega
  within := hfair.within
  lower := by simp [Phase.Waits]
  refused := by simp
  failed := by simp
  served := by simp
  source := fun _ => .inl rfl
  known := by simp [Phase.Untouched]

theorem other_add {extra : Nat}
    (hfair : Fair supply amount adds true first stock makeable gained mine .changed)
    (hknown : mine.Untouched → gained + extra ≤ amount) :
    Fair supply amount adds true first (stock + extra) makeable (gained + extra) mine .added := by
  have hnone : Phase.changed.taken true = 0 ∧ Phase.added.taken true = 0 := ⟨rfl, rfl⟩
  have hawaited : Phase.changed.awaited = 0 ∧ Phase.added.awaited = 0 := ⟨rfl, rfl⟩
  apply hfair.other_step _ le_rfl
  · intro _ _
    omega
  · omega
  · omega
  · exact fun _ => .inr rfl
  · exact fun _ => hknown
  · omega

/-- What an agent was refused is not there for another one that may still
fail. -/
theorem stock_eq_zero
    (hfair : Fair supply amount adds otherAdds first stock makeable gained .refused other)
    (hwaits : other.Waits) : stock = 0 := by
  have hle := hfair.refused rfl
  have hnone : ¬ 0 < gained := by
    intro hgained
    have hadded := (hfair.source hgained).resolve_left (by simp)
    rw [hadded] at hwaits
    simp [Phase.Waits] at hwaits
  have hawaited : other.awaited = 0 := by
    rcases hwaits with rfl | rfl | rfl <;> rfl
  omega

theorem mono (hfair : Fair supply amount adds otherAdds first stock makeable gained mine other)
    (himp : first → later) :
    Fair supply amount adds otherAdds later stock makeable gained mine other :=
  { hfair with served := fun hserved => (hfair.served hserved).imp_right (.imp_left himp) }

end Fair

/-- What a step of an agent means to both. -/
theorem Supplied.of_agents (agent : Bool) {supply : Nat}
    (hmine : Fair supply (gain (!agent)) (tasks agent).adds (tasks (!agent)).adds
      (next.order.getLast? = some (!agent)) next.stock next.makeable next.gained
      (next.phase agent) (next.phase (!agent)))
    (hother : Fair supply (gain agent) (tasks (!agent)).adds (tasks agent).adds
      (next.order.getLast? = some agent) next.stock next.makeable next.gained
      (next.phase (!agent)) (next.phase agent)) : Supplied tasks gain supply next := by
  intro other
  by_cases heq : other = agent
  · subst heq
    exact hmine
  · obtain rfl := Bool.eq_not.mpr heq
    rw [Bool.not_not]
    exact hother

@[simp] theorem Bench.enter_self (phase : Phase) : (bench.enter agent phase).phase agent = phase :=
  Function.update_self ..

@[simp] theorem Bench.enter_other (phase : Phase) :
    (bench.enter agent phase).phase (!agent) = bench.phase (!agent) :=
  Function.update_of_ne (by simp) ..

theorem Supplied.step {supply : Nat} (hsupplied : Supplied tasks gain supply bench)
    (hchanges : Changes tasks start bench) (hstep : Step tasks gain agent bench next) :
    Supplied tasks gain supply next := by
  have hmine := hsupplied agent
  have hother := hsupplied (!agent)
  rw [Bool.not_not] at hother
  cases hstep with
  | miss phase absent =>
      rw [phase] at hmine hother
      refine .of_agents agent ?_ ?_ <;> rw [Bench.enter_self, Bench.enter_other]
      · apply hmine.enter <;> simp [Phase.taken, Phase.Waits, Phase.Untouched]
      · exact hother.other_enter rfl rfl (by simp) (by simp)
  | locate phase present =>
      rw [phase] at hmine hother
      refine .of_agents agent ?_ ?_ <;> rw [Bench.enter_self, Bench.enter_other]
      · apply hmine.enter <;> simp [Phase.taken, Phase.Waits, Phase.Untouched]
      · exact hother.other_enter rfl rfl (by simp) (by simp)
  | refuse phase needs empty =>
      rw [phase] at hmine hother
      rw [empty] at hmine
      refine .of_agents agent ?_ ?_ <;> rw [Bench.enter_self, Bench.enter_other]
      · rw [Bench.enter_stock, empty]
        exact hmine.refuse
      · exact hother.other_enter rfl rfl (by simp) (by simp)
  | @take rest phase needs stocked =>
      rw [phase, stocked] at hmine hother
      refine .of_agents agent ?_ ?_ <;> dsimp only <;>
        rw [Bench.enter_self, Bench.enter_other]
      · apply hmine.take
        intro hadded
        have hsuits := hchanges.suits (!agent)
        rw [hadded] at hsuits
        refine ⟨?_, hsuits⟩
        rw [hchanges.order_eq (!agent)]
        · rfl
        · exact hadded ▸ .inr rfl
        · simp [phase, Phase.Done]
      · exact hother.other_take rfl (Nat.zero_le _) (by simp)
  | @make stock makeable phase some pos le =>
      rw [phase, some] at hmine hother
      refine .of_agents agent ?_ ?_ <;> dsimp only <;>
        rw [Bench.enter_self, Bench.enter_other]
      · exact hmine.make le
      · exact hother.other_make (fun _ => hmine.stock_eq_zero) pos le
  | @fail stock phase none le =>
      have hneeds := hchanges.suits agent
      rw [phase] at hneeds
      rw [phase, none] at hmine hother
      refine .of_agents agent ?_ ?_ <;> dsimp only <;>
        rw [Bench.enter_self, Bench.enter_other, Bench.enter_makeable, none]
      · exact hmine.fail hneeds le
      · exact hother.other_fail (fun _ => hmine.stock_eq_zero) le
  | @takeMade rest phase stocked =>
      rw [phase, stocked] at hmine hother
      refine .of_agents agent ?_ ?_ <;> dsimp only <;>
        rw [Bench.enter_self, Bench.enter_other]
      · exact hmine.takeMade
      · exact hother.other_take rfl le_rfl (by simp)
  | change phase present =>
      have hlater : ∀ first, bench.order.getLast? = some first →
          (agent :: bench.order).getLast? = some first := by
        intro first hfirst
        rw [List.getLast?_cons, hfirst]
        rfl
      rw [phase] at hmine hother
      refine .of_agents agent ?_ ?_ <;> dsimp only <;>
        rw [Bench.enter_self, Bench.enter_other]
      · refine Fair.mono ?_ (hlater _)
        generalize (tasks agent).adds = adds at hmine
        cases adds <;> apply hmine.enter <;>
          simp [Phase.taken, Phase.Waits, Phase.Untouched]
      · refine Fair.mono ?_ (hlater _)
        generalize (tasks agent).adds = adds at hother
        cases adds <;> apply hother.other_enter <;> simp [Phase.taken, Phase.awaited]
  | @add amount phase adds known =>
      rw [phase, adds] at hmine hother
      refine .of_agents agent ?_ ?_ <;> dsimp only <;>
        rw [Bench.enter_self, Bench.enter_other, adds]
      · exact hmine.add
      · apply hother.other_add
        intro huntouched
        have hnone : ¬ 0 < bench.gained := by
          intro hgained
          have hadded := (hmine.source hgained).resolve_left (by simp)
          rw [hadded] at huntouched
          simp [Phase.Untouched] at huntouched
        have horder := hchanges.order_eq agent (phase ▸ .inl rfl) (by
          rcases huntouched with heq | heq | heq <;> simp [heq, Phase.Done])
        rw [Nat.eq_zero_of_not_pos hnone, known horder huntouched, Nat.zero_add]

/-! ## One after the other -/

section Serial

variable {object : Object} {stock makeable supply : Nat}

theorem Changes.fresh : Changes tasks object (.fresh object stock makeable) where
  suits := fun _ => trivial
  nodup := List.nodup_nil
  done := fun _ => iff_of_false List.not_mem_nil (by simp [Bench.fresh, Phase.Done])
  object := rfl
  present := by simp [Bench.fresh]
  missed := by simp [Bench.fresh]

theorem Supplied.fresh :
    Supplied tasks gain (stock + makeable) (.fresh object stock makeable) := by
  intro agent
  constructor <;> simp [Bench.fresh, Phase.taken]

theorem Reaches.sound (hreaches : Reaches tasks gain (.fresh object stock makeable) bench) :
    Changes tasks object bench ∧ Supplied tasks gain (stock + makeable) bench := by
  induction hreaches with
  | refl => exact ⟨.fresh, .fresh⟩
  | tail prior hstep ih =>
      obtain ⟨agent, hstep⟩ := hstep
      exact ⟨ih.1.step hstep, ih.2.step ih.1 hstep⟩

variable (hchanges : Changes tasks object bench)
include hchanges

theorem Changes.phase_eq (hdone : (bench.phase agent).Done) :
    bench.phase agent = if (tasks agent).adds then bench.phase agent else .changed := by
  cases hadds : (tasks agent).adds with
  | true => rfl
  | false =>
      refine hdone.resolve_right fun hadded => ?_
      have hsuits := hchanges.suits agent
      rw [hadded, hadds] at hsuits
      cases hsuits

/-- The first agent to change the object finds its place at the start. -/
theorem Changes.present_first (hfirst : bench.order.getLast? = some agent) :
    (bench.phase agent).Done ∧ (tasks agent).present object := by
  obtain ⟨later, horder⟩ := List.getLast?_eq_some_iff.mp hfirst
  constructor
  · rw [← hchanges.done, horder]
    exact List.mem_append_cons_self
  · exact hchanges.present agent [] ⟨later, horder.symm⟩

variable (hsupplied : Supplied tasks gain supply bench)
include hsupplied

/-- The first agent to change the object can do so when it is alone. -/
theorem Changes.alone_first (hfirst : bench.order.getLast? = some agent) :
    ∃ rest, Alone (tasks agent) (gain agent) object supply true ((tasks agent).change object) rest ∧
      rest = if (tasks agent).adds then supply + gain agent else supply - 1 := by
  obtain ⟨hdone, hpresent⟩ := hchanges.present_first hfirst
  have hphase := hchanges.phase_eq hdone
  cases hadds : (tasks agent).adds with
  | true => exact ⟨_, .added hpresent hadds, rfl⟩
  | false =>
      rw [hadds] at hphase
      have hserved := (hsupplied agent).served (.inr (.inr ⟨hphase, hadds⟩))
      have hpos : 0 < supply := by
        refine hserved.resolve_right fun hother => ?_
        rw [hfirst] at hother
        cases agent <;> cases hother.1
      exact ⟨supply - 1, .taken hpresent hadds (by omega), rfl⟩

/-- Both agents changed the object, and there was enough for both. -/
theorem Changes.alone_both {first : Bool} (horder : bench.order = [!first, first]) :
    ∃ between rest last,
      Alone (tasks first) (gain first) object supply true between rest ∧
        Alone (tasks (!first)) 0 between rest true bench.object last := by
  have hfirst : bench.order.getLast? = some first := by rw [horder]; rfl
  obtain ⟨rest, halone, hrest⟩ := hchanges.alone_first hsupplied hfirst
  have hpresent := hchanges.present (!first) [first] (horder ▸ List.suffix_rfl)
  have hobject := hchanges.object
  rw [horder] at hobject
  rw [hobject]
  cases hadds : (tasks (!first)).adds with
  | true => exact ⟨_, _, _, halone, .added hpresent hadds⟩
  | false =>
      have hlater := hchanges.phase_eq ((hchanges.done (!first)).mp (by simp [horder]))
      rw [hadds] at hlater
      have hpos : 0 < rest := by
        have hfair := hsupplied (!first)
        have hserved := hfair.served (.inr (.inr ⟨hlater, hadds⟩))
        rw [Bool.not_not] at hfair hserved
        cases hfirstAdds : (tasks first).adds with
        | true =>
            rw [hfirstAdds, if_pos rfl] at hrest
            omega
        | false =>
            have hbefore := hchanges.phase_eq (hchanges.present_first hfirst).1
            rw [hfirstAdds] at hbefore hrest
            have hupper := hfair.upper
            rw [hlater, hbefore, hadds, hfirstAdds] at hupper
            have htwo : bench.stock + bench.makeable + 1 + 1 ≤ supply + bench.gained := hupper
            have hnone : ¬ 0 < bench.gained := fun hgained => by
              rcases hfair.source hgained with hadded | hadded
              · rw [hlater] at hadded
                cases hadded
              · rw [hbefore] at hadded
                cases hadded
            rw [if_neg (by simp)] at hrest
            omega
      exact ⟨_, _, rest - 1, halone, .taken hpresent hadds (by omega)⟩

/-- Only one agent changed the object, and the other one missed its place. -/
theorem Changes.alone_missed {first : Bool} (horder : bench.order = [first])
    (hmissed : bench.phase (!first) = .missed) :
    ∃ between rest last,
      (Alone (tasks first) (gain first) object supply true between rest ∧
        Alone (tasks (!first)) 0 between rest false bench.object last) ∨
      (Alone (tasks (!first)) (gain (!first)) object supply false between rest ∧
        Alone (tasks first) (gain first) between rest true bench.object last) := by
  obtain ⟨rest, halone, -⟩ := hchanges.alone_first hsupplied (by rw [horder]; rfl)
  obtain ⟨earlier, hsuffix, habsent⟩ := hchanges.missed (!first) hmissed
  have hobject := hchanges.object
  rw [horder] at hobject hsuffix
  rw [hobject]
  rcases List.suffix_cons_iff.mp hsuffix with rfl | hnil
  · exact ⟨_, _, _, .inl ⟨halone, .absent habsent⟩⟩
  · obtain rfl := List.suffix_nil.mp hnil
    exact ⟨_, _, _, .inr ⟨.absent habsent, halone⟩⟩

/-- Only one agent changed the object, and for the other one there was nothing
left. -/
theorem Changes.alone_failed {first : Bool} (horder : bench.order = [first])
    (hfailed : bench.phase (!first) = .failed) :
    ∃ between rest last,
      (Alone (tasks first) (gain first) object supply true between rest ∧
        Alone (tasks (!first)) 0 between rest false bench.object last) ∨
      (Alone (tasks (!first)) (gain (!first)) object supply false between rest ∧
        Alone (tasks first) (gain first) between rest true bench.object last) := by
  have hlast : bench.order.getLast? = some first := by rw [horder]; rfl
  obtain ⟨rest, halone, hrest⟩ := hchanges.alone_first hsupplied hlast
  have hphase := hchanges.phase_eq (hchanges.present_first hlast).1
  have hdone := (hchanges.present_first hlast).1
  have hneeds := hchanges.suits (!first)
  rw [hfailed] at hneeds
  have hle := (hsupplied (!first)).failed hfailed
  rw [Bool.not_not] at hle
  have hobject := hchanges.object
  rw [horder] at hobject
  rw [hobject]
  cases hadds : (tasks first).adds with
  | true =>
      rw [hadds] at hle
      have hnone : supply = 0 := by
        rcases hdone with heq | heq
        · rw [heq] at hle
          exact Nat.le_zero.mp hle
        · rw [heq] at hle
          exact Nat.le_zero.mp hle
      exact ⟨_, _, _, .inr ⟨.refused hneeds hnone, halone⟩⟩
  | false =>
      rw [hadds] at hphase hle hrest
      rw [hphase] at hle
      have hone : supply ≤ 1 := hle
      have hnone : rest = 0 := by
        rw [hrest, if_neg (by simp)]
        omega
      exact ⟨_, _, _, .inl ⟨halone, .refused hneeds hnone⟩⟩

/-- An agent that did not change the object while nobody else did. -/
theorem Changes.alone_none (horder : bench.order = [])
    (hover : ∀ agent, bench.phase agent = .missed ∨ bench.phase agent = .failed) (agent : Bool)
    (amount : Nat) : Alone (tasks agent) amount object supply false object supply := by
  rcases hover agent with hmissed | hfailed
  · obtain ⟨earlier, hsuffix, habsent⟩ := hchanges.missed agent hmissed
    rw [horder] at hsuffix
    obtain rfl := List.suffix_nil.mp hsuffix
    exact .absent habsent
  · have hneeds := hchanges.suits agent
    rw [hfailed] at hneeds
    have hle := (hsupplied agent).failed hfailed
    refine .refused hneeds (Nat.le_zero.mp ?_)
    rcases hover (!agent) with heq | heq
    · rw [heq] at hle
      exact hle
    · rw [heq] at hle
      exact hle

/-- When both tasks are over, one after the other has the same outcome in some
order. -/
theorem Changes.serial (hover : ∀ agent, (bench.phase agent).Over (tasks agent).adds) :
    ∃ first between rest amount last,
      Alone (tasks first) (gain first) object supply (bench.phase first).Done between rest ∧
        Alone (tasks (!first)) amount between rest (bench.phase (!first)).Done bench.object
          last := by
  have hidle : ∀ agent, agent ∉ bench.order →
      bench.phase agent = .missed ∨ bench.phase agent = .failed := by
    intro agent hmem
    rw [hchanges.done] at hmem
    rcases hover agent with hmissed | hfailed | hdone
    · exact .inl hmissed
    · exact .inr hfailed
    · refine absurd ?_ hmem
      rw [hdone]
      split
      · exact .inr rfl
      · exact .inl rfl
  have hdone : ∀ agent, decide (bench.phase agent).Done = decide (agent ∈ bench.order) :=
    fun agent => decide_eq_decide.mpr (hchanges.done agent).symm
  simp only [hdone]
  rcases horder : bench.order with _ | ⟨first, _ | ⟨before, _ | ⟨other, earlier⟩⟩⟩
  · have hnone := hchanges.alone_none hsupplied horder fun agent => hidle agent (by simp [horder])
    have hobject := hchanges.object
    rw [horder] at hobject
    rw [hobject]
    exact ⟨true, _, _, 0, _, hnone true (gain true), hnone false 0⟩
  · have hother : (!first) ∉ [first] := by simp
    have hself : first ∈ [first] := List.mem_singleton_self first
    have hcases : ∃ between rest last,
        (Alone (tasks first) (gain first) object supply true between rest ∧
          Alone (tasks (!first)) 0 between rest false bench.object last) ∨
        (Alone (tasks (!first)) (gain (!first)) object supply false between rest ∧
          Alone (tasks first) (gain first) between rest true bench.object last) := by
      rcases hidle (!first) (horder ▸ hother) with hmissed | hfailed
      · exact hchanges.alone_missed hsupplied horder hmissed
      · exact hchanges.alone_failed hsupplied horder hfailed
    obtain ⟨between, rest, last, ⟨hone, htwo⟩ | ⟨hone, htwo⟩⟩ := hcases
    · refine ⟨first, between, rest, 0, last, ?_⟩
      rw [decide_eq_true hself, decide_eq_false hother]
      exact ⟨hone, htwo⟩
    · refine ⟨!first, between, rest, gain first, last, ?_⟩
      rw [Bool.not_not, decide_eq_true hself, decide_eq_false hother]
      exact ⟨hone, htwo⟩
  · have hnodup := hchanges.nodup
    rw [horder] at hnodup
    have hne : first ≠ before := by simpa using hnodup
    obtain rfl := Bool.eq_not.mpr hne
    obtain ⟨between, rest, last, hboth⟩ := hchanges.alone_both hsupplied horder
    refine ⟨before, between, rest, 0, last, ?_⟩
    simpa using hboth
  · have hnodup := hchanges.nodup
    rw [horder] at hnodup
    cases first <;> cases before <;> cases other <;> simp at hnodup

end Serial

end Located

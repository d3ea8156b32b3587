import MicroTbx.List.Demand

/-! # Scripts

A sequence of list calls that works on the lists it creates itself can be
executed again, on other handles. A script speaks of the lists by the order of
their creation, and tells by itself which of them are live, what items they
hold, and how many blocks they need.
-/

namespace MicroTbx

open Program

/-- A call of a sequence that speaks of lists by the order of their creation. -/
inductive ScriptCall
  | create
  | delete (index : Nat)
  | on (index : Nat) (operation : ListOperation)

/-- The call that is made when these are the handles of the lists. -/
def ScriptCall.resolve (handles : Nat → Nat) : ScriptCall → ListCall
  | .create => .create
  | .delete index => .delete (handles index)
  | .on index operation => .on (handles index) operation

/-- How many lists a script creates. -/
def scriptCreated : List ScriptCall → Nat
  | [] => 0
  | .create :: earlier => scriptCreated earlier + 1
  | _ :: earlier => scriptCreated earlier

/-- The lists that a script created and did not delete. -/
def scriptLive : List ScriptCall → List Nat
  | [] => []
  | .create :: earlier => scriptCreated earlier :: scriptLive earlier
  | .delete index :: earlier => (scriptLive earlier).erase index
  | .on _ _ :: earlier => scriptLive earlier

/-- A script works on its own lists only. -/
def OnOwnLists : List ScriptCall → Prop
  | [] => True
  | .create :: earlier => OnOwnLists earlier
  | .delete index :: earlier | .on index _ :: earlier =>
      index ∈ scriptLive earlier ∧ OnOwnLists earlier

/-- How many lists the calls of a history were to create. -/
def listsCreated : List ListExchange → Nat
  | [] => 0
  | ⟨.create, _, _, _⟩ :: earlier => listsCreated earlier + 1
  | _ :: earlier => listsCreated earlier

/-- The handles that a history returned, by the order of the creations. -/
def handleOf : List ListExchange → Nat → Nat
  | [] => fun _ => null
  | ⟨.create, .pointer list, _, _⟩ :: earlier =>
      Function.update (handleOf earlier) (listsCreated earlier) list
  | _ :: earlier => handleOf earlier

/-- The history is an execution of the script, the newest call first in both. -/
def Carries : List ScriptCall → List ListExchange → Prop
  | [], [] => True
  | call :: script, exchange :: history =>
      exchange.request = call.resolve (handleOf history) ∧ Carries script history
  | _, _ => False

/-- The items that a script leaves in each of its lists. -/
def scriptItems : List ScriptCall → Nat → List Nat
  | [] => fun _ => []
  | .create :: earlier => Function.update (scriptItems earlier) (scriptCreated earlier) []
  | .delete _ :: earlier => scriptItems earlier
  | .on index operation :: earlier =>
      Function.update (scriptItems earlier) index (operation.apply (scriptItems earlier index)).2

/-- The blocks that the lists of a script need. -/
def scriptWeight (script : List ScriptCall) : Nat :=
  ((scriptLive script).map fun index => (scriptItems script index).length + 1).sum

variable {target : Target} {owner : Ownership} {views : List PoolView} {lists : List ListView}
  {start state after : State} {base later history : List ListExchange} {call : ListCall}
  {reply : ListReply} {script earlier : List ScriptCall} {started sequences next other : Sequences}
  {short : Nat → Prop}

/-! ## What a script needs -/

theorem scriptLive_lt {index : Nat} (hindex : index ∈ scriptLive script) :
    index < scriptCreated script := by
  induction script with
  | nil => cases hindex
  | cons call earlier ih =>
      cases call with
      | create =>
          rcases List.mem_cons.mp hindex with rfl | hearlier
          · exact Nat.lt_succ_self _
          · exact Nat.lt_succ_of_lt (ih hearlier)
      | delete other => exact ih (List.mem_of_mem_erase hindex)
      | on other operation => exact ih hindex

theorem scriptLive_nodup (script : List ScriptCall) : (scriptLive script).Nodup := by
  induction script with
  | nil => exact List.nodup_nil
  | cons call earlier ih =>
      cases call with
      | create => exact List.nodup_cons.mpr ⟨fun hlive => (scriptLive_lt hlive).false, ih⟩
      | delete index => exact ih.erase index
      | on index operation => exact ih

/-- One value of a sum over distinct indices is changed. -/
theorem sum_update {indices : List Nat} (hnodup : indices.Nodup) {index : Nat}
    (hindex : index ∈ indices) {count changed : Nat → Nat}
    (hsame : ∀ other, other ≠ index → changed other = count other) :
    (indices.map changed).sum + count index = (indices.map count).sum + changed index := by
  have hperm := List.perm_cons_erase hindex
  have hrest : (indices.erase index).map changed = (indices.erase index).map count :=
    List.map_congr_left fun other hother => hsame other ((hnodup.mem_erase_iff.mp hother).1)
  rw [(hperm.map changed).sum_eq, (hperm.map count).sum_eq, List.map_cons, List.map_cons,
    List.sum_cons, List.sum_cons, hrest]
  omega

theorem scriptWeight_create :
    scriptWeight (.create :: earlier) = scriptWeight earlier + 1 := by
  have hrest : (scriptLive earlier).map (fun index =>
      (scriptItems (.create :: earlier) index).length + 1) =
      (scriptLive earlier).map fun index => (scriptItems earlier index).length + 1 := by
    apply List.map_congr_left
    intro index hindex
    rw [scriptItems, Function.update_of_ne (scriptLive_lt hindex).ne]
  rw [scriptWeight, scriptLive, List.map_cons, List.sum_cons, hrest, scriptItems,
    Function.update_self, scriptWeight]
  exact Nat.add_comm _ _

theorem length_apply {operation : ListOperation} {items : List Nat}
    (hallocates : operation.Allocates items) :
    (operation.apply items).1 = .status .ok ∧
      (operation.apply items).2.length = items.length + 1 := by
  cases operation with
  | insertItemFront item => exact ⟨rfl, rfl⟩
  | insertItemBack item => exact ⟨rfl, List.length_append⟩
  | insertItemBefore item itemRef =>
      have hmem : itemRef ∈ items := hallocates
      rw [ListOperation.apply, if_pos hmem]
      obtain ⟨front, back, rfl, hnot⟩ := List.eq_append_cons_of_mem hmem
      rw [Sequence.insertBefore_split hnot]
      simp
      omega
  | insertItemAfter item itemRef =>
      have hmem : itemRef ∈ items := hallocates
      rw [ListOperation.apply, if_pos hmem]
      obtain ⟨front, back, rfl, hnot⟩ := List.eq_append_cons_of_mem hmem
      rw [Sequence.insertAfter_split hnot]
      simp
      omega
  | _ => exact absurd hallocates id

theorem scriptWeight_on {index : Nat} {operation : ListOperation}
    (hindex : index ∈ scriptLive earlier)
    (hallocates : operation.Allocates (scriptItems earlier index)) :
    scriptWeight (.on index operation :: earlier) = scriptWeight earlier + 1 := by
  have hsum := @sum_update _ (scriptLive_nodup earlier) index hindex
    (fun index => (scriptItems earlier index).length + 1)
    (fun other => (scriptItems (.on index operation :: earlier) other).length + 1) (by
      intro other hother
      rw [scriptItems, Function.update_of_ne hother])
  have hchanged : (scriptItems (.on index operation :: earlier) index).length =
      (scriptItems earlier index).length + 1 := by
    rw [scriptItems, Function.update_self]
    exact (length_apply hallocates).2
  simp only [hchanged] at hsum
  have hweight : scriptWeight (.on index operation :: earlier) =
      ((scriptLive earlier).map fun other =>
        (scriptItems (.on index operation :: earlier) other).length + 1).sum := rfl
  have hearlier : scriptWeight earlier =
      ((scriptLive earlier).map fun other => (scriptItems earlier other).length + 1).sum := rfl
  rw [hweight, hearlier]
  omega

/-! ## The sequences of a history -/

/-- What a call did tells what it made of the sequences. -/
theorem SpecStep.unique (hstep : SpecStep short sequences call reply next)
    (hother : SpecStep short sequences call reply other) : next = other := by
  cases hstep with
  | create ne_null fresh =>
      cases hother with
      | create => rfl
      | createFailed => exact absurd rfl ne_null
  | createFailed =>
      cases hother with
      | create ne_null => exact absurd rfl ne_null
      | createFailed => rfl
  | delete live =>
      cases hother with
      | delete => rfl
  | @on list items operation live =>
      generalize hreply : (operation.apply items).1 = reply at hother
      cases hother with
      | on otherLive => rw [Option.some.inj (live.symm.trans otherLive)]
      | onFailed otherLive allocates =>
          cases live.symm.trans otherLive
          rw [(length_apply allocates).1] at hreply
          cases hreply
  | @onFailed list items operation live allocates =>
      generalize hreply : ListReply.status .error = reply at hother
      cases hother with
      | on otherLive =>
          cases live.symm.trans otherLive
          rw [(length_apply allocates).1] at hreply
          cases hreply
      | onFailed => rfl
  | pool =>
      cases hother with
      | pool => rfl

theorem SpecRun.unique (hrun : SpecRun target history sequences)
    (hother : SpecRun target history other) : sequences = other := by
  induction hrun generalizing other with
  | start =>
      cases hother
      rfl
  | step prior step ih =>
      cases hother with
      | step otherPrior otherStep =>
          obtain rfl := ih otherPrior
          exact step.unique otherStep

end MicroTbx

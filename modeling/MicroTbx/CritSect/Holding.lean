import MicroTbx.CritSect.Operations

/-! # Between disabling and restoring

Every port makes the counter and the saved status safe to use before its
disabling function returns. What the module then does with them is the same
for all ports. A proof outline of a port says what is held at each value of
the counter; here the two functions of the module are proved from that.
-/

namespace MicroTbx

open Thread

variable {Core Hardware SR : Type}

/-- The assertion `held count` protects the variables of the module, with the
counter at this value. -/
structure Holding (port : Port Core Hardware SR)
    (machine : Machine Core (CritSect Core Hardware SR) SR)
    (outline : Outline Core (CritSect Core Hardware SR) SR) (core : Core) (base : SR)
    (held : Nat → CritSect Core Hardware SR → Prop) : Prop where
  refl : ∀ other state, outline.rely other state state
  stable : ∀ depth count, outline.Stable machine core base depth (held count)
  stable_saved : ∀ depth count, outline.Stable machine core base depth fun state =>
    held count state ∧ state.tbxCritSectCpuSR = base
  counter : ∀ count state, held count state → state.tbxCritSectNestingCounter = count
  saved : ∀ count state, held count state → 0 < count → state.tbxCritSectCpuSR = base
  save : ∀ state, held 0 state →
    (∀ other, other ≠ core → outline.rely other state (state.setCpuSR base)) ∧
      held 0 (state.setCpuSR base)
  nest : ∀ count state, held count state → state.tbxCritSectCpuSR = base → count + 1 < 2 ^ 32 →
    (∀ other, other ≠ core → outline.rely other state
      ((state.setNestingCounter (count + 1)).emit (.nested core))) ∧
      held (count + 1) ((state.setNestingCounter (count + 1)).emit (.nested core))
  unnest : ∀ count state, held (count + 1) state →
    (∀ other, other ≠ core → outline.rely other state
      ((state.setNestingCounter count).emit (.unnested core))) ∧
      held count ((state.setNestingCounter count).emit (.unnested core))

namespace Holding

variable {port : Port Core Hardware SR} {machine : Machine Core (CritSect Core Hardware SR) SR}
  {outline : Outline Core (CritSect Core Hardware SR) SR} {core : Core} {base : SR}
  {held : Nat → CritSect Core Hardware SR → Prop} {depth : Nat}
  {state : CritSect Core Hardware SR}

/-- The rest of an entry, from where the port has disabled the interrupts. -/
theorem enterDisabled (holding : Holding port machine outline core base held)
    (hbound : depth + 1 < 2 ^ 32) {cpuSR : SR} (hstate : held depth state)
    (hsaves : depth = 0 → cpuSR = base) :
    outline.Follows machine core base depth (enterDisabled core cpuSR)
      (fun _ => held (depth + 1)) state := by
  have hsaved := holding.stable_saved depth depth
  apply Outline.follows_get_bind holding.refl (holding.stable depth depth) hstate
    (holding.counter depth)
  intro after hafter
  -- The status is stored by the outermost entry only, which is the one that read it.
  apply Outline.follows_bind fun _ state => held depth state ∧ state.tbxCritSectCpuSR = base
  · split
    · next hzero =>
        subst hzero
        rw [hsaves rfl]
        apply Outline.follows_modify (holding.stable 0 0) hafter
        intro before hbefore
        obtain ⟨hrely, hheld⟩ := holding.save before hbefore
        exact ⟨hrely, hheld, rfl⟩
    · next hpos =>
        exact Outline.follows_ret ⟨hafter, holding.saved depth _ hafter (Nat.pos_of_ne_zero hpos)⟩
  intro _ after hafter
  apply Outline.follows_get_bind holding.refl hsaved hafter fun state hstate =>
    holding.counter depth state hstate.1
  intro after hafter
  apply Outline.follows_modify hsaved hafter
  intro before hbefore
  exact holding.nest depth before hbefore.1 hbefore.2 hbound

theorem enter (holding : Holding port machine outline core base held) (hbound : depth + 1 < 2 ^ 32)
    (hdisable : outline.Follows machine core base depth (port.tbxPortInterruptsDisable core)
      (fun result after => held depth after ∧ (depth = 0 → result = base)) state) :
    outline.Follows machine core base depth (tbxCriticalSectionEnter port core)
      (fun _ => held (depth + 1)) state :=
  Outline.follows_bind _ hdisable fun _ _ hafter =>
    holding.enterDisabled hbound hafter.1 hafter.2

theorem exit (holding : Holding port machine outline core base held) (hstate : held (depth + 1) state)
    {settled : CritSect Core Hardware SR → Prop}
    (hrestore : depth = 0 → ∀ after, held 0 after → after.tbxCritSectCpuSR = base →
      outline.Follows machine core base depth (port.tbxPortInterruptsRestore core base)
        (fun _ => settled) after)
    (hnested : 0 < depth → ∀ after, held depth after → settled after) :
    outline.Follows machine core base depth (tbxCriticalSectionExit port core)
      (fun _ => settled) state := by
  have hstable := holding.stable depth (depth + 1)
  have hsaved := holding.stable_saved depth depth
  have hcounter := holding.counter (depth + 1)
  apply Outline.follows_get_bind holding.refl hstable hstate hcounter
  intro after hafter
  simp only [Nat.succ_pos, if_true]
  apply Outline.follows_bind fun _ => held (depth + 1)
  · exact Outline.follows_ret hafter
  intro _ after hafter
  apply Outline.follows_get_bind holding.refl hstable hafter hcounter
  intro after hafter
  apply Outline.follows_get_bind holding.refl hstable hafter hcounter
  intro after hafter
  apply Outline.follows_modify_bind (fun state => held depth state ∧ state.tbxCritSectCpuSR = base)
    hstable hafter
  · intro before hbefore
    obtain ⟨hrely, hheld⟩ := holding.unnest depth before hbefore
    exact ⟨hrely, hheld, holding.saved (depth + 1) before hbefore (Nat.succ_pos depth)⟩
  intro after hafter
  apply Outline.follows_get_bind holding.refl hsaved hafter fun state hstate =>
    holding.counter depth state hstate.1
  intro after hafter
  split
  · next hzero =>
      apply Outline.follows_get_bind holding.refl hsaved hafter fun state hstate => hstate.2
      intro after hafter
      subst hzero
      exact hrestore rfl after hafter.1 hafter.2
  · next hpos => exact Outline.follows_ret (hnested (Nat.pos_of_ne_zero hpos) after hafter.1)

end Holding

end MicroTbx

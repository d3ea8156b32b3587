import MicroTbx.CritSect.Operations
import Mathlib.Algebra.GroupWithZero.Nat

/-! # Critical sections of threads

The port for an operating system simulates disabled interrupts by a flag and a
mutex. Only the thread that sets the flag waits for the mutex; a thread that
finds the flag set goes on, whoever has set it. So two threads can be inside
their sections at the same time, unless no thread ever finds the flag set by
another one.
-/

namespace MicroTbx

open Thread

/-- The statics of the port. No code reads which thread has set the flag. -/
structure Pthreads (Core : Type) where
  interruptsDisabledFlag : Bool
  flagSetBy : Option Core
  critSectMutex : Option Core

/-- The state that the threads share. -/
abbrev Threads (Core : Type) := CritSect Core (Pthreads Core) (BitVec 32)

variable {Core : Type}

/-- `atomic_flag_test_and_set` on the flag. -/
def testAndSet [DecidableEq Core] (core : Core) (state : Threads Core) : Threads Core :=
  if state.hardware.interruptsDisabledFlag then
    if state.hardware.flagSetBy = some core then state else state.emit (.contended core)
  else
    state.setHardware { state.hardware with
      interruptsDisabledFlag := true
      flagSetBy := some core }

/-- `atomic_flag_clear` on the flag. -/
def clearFlag (state : Threads Core) : Threads Core :=
  state.setHardware { state.hardware with
    interruptsDisabledFlag := false
    flagSetBy := none }

def setMutex (holder : Option Core) (state : Threads Core) : Threads Core :=
  state.setHardware { state.hardware with critSectMutex := holder }

/-- `TBX_PORT_CPU_SR_IRQ_EN`. -/
def tbxPortCpuSrIrqEn : BitVec 32 := 1

section

variable (Core) [DecidableEq Core]

def linuxPort : Port Core (Pthreads Core) (BitVec 32) where
  tbxPortInterruptsDisable core := do
    let wasSet ← atomic (fun state => some (testAndSet core state))
      (·.hardware.interruptsDisabledFlag)
    if wasSet = false then do
      atomic (fun state => if state.hardware.critSectMutex = none then
          some (setMutex (some core) state) else none) fun _ => ()
      pure tbxPortCpuSrIrqEn
    else pure 0
  tbxPortInterruptsRestore _ prevCpuSr :=
    if prevCpuSr = tbxPortCpuSrIrqEn then do
      modify (setMutex none)
      modify clearFlag
    else pure ()

/-- Threads are not interrupted, and may nest as deeply as they like. -/
def linuxMachine : Machine Core (Threads Core) Unit where
  procedure core
    | .enter => tbxCriticalSectionEnter (linuxPort Core) core
    | .exit => tbxCriticalSectionExit (linuxPort Core) core
  status _ _ := ()
  interruptible _ _ := false
  handlerEntry _ := id
  handlerReturn _ := id
  nestable _ := true

end

/-- Program start. -/
def linuxStart (Core : Type) : Threads Core := .initial ⟨false, none, none⟩ 0

namespace Threads

/-! ## The assertions -/

/-- No thread found the flag set by another one. -/
def Uncontended (state : Threads Core) : Prop := ∀ core, .contended core ∉ state.log

/-- While nothing was contended, the thread has set the flag, and the variables
of the module are as described. -/
def Held (core : Core) (known : Nat → BitVec 32 → Prop) (state : Threads Core) : Prop :=
  Uncontended state → state.hardware.interruptsDisabledFlag = true ∧
    state.hardware.flagSetBy = some core ∧
    known state.tbxCritSectNestingCounter state.tbxCritSectCpuSR

/-- The counter is not below the depth, or it will never lead to the flag being
cleared. The latter is what remains after the counter overflows. -/
def Tracks (depth counter : Nat) (cpuSR : BitVec 32) : Prop :=
  depth ≤ counter ∨ counter = 0 ∨ cpuSR ≠ tbxPortCpuSrIrqEn

def Settled (core : Core) (depth : Nat) (state : Threads Core) : Prop :=
  0 < depth → Held core (Tracks depth) state

/-- What a thread relies on: others leave everything alone while its flag is
set. -/
def Unaffected (core : Core) (before after : Threads Core) : Prop :=
  Uncontended after → Uncontended before ∧
    (before.hardware.interruptsDisabledFlag = true → before.hardware.flagSetBy = some core →
      after.hardware.interruptsDisabledFlag = true ∧ after.hardware.flagSetBy = some core ∧
        after.tbxCritSectNestingCounter = before.tbxCritSectNestingCounter ∧
        after.tbxCritSectCpuSR = before.tbxCritSectCpuSR)

variable (Core) in
def outline : Outline Core (Threads Core) Unit where
  rely := Unaffected
  settled core _ depth := Settled core depth
  always core _ depth state := 0 < depth → Uncontended state →
    state.hardware.flagSetBy = some core

variable {core other : Core} {known : Nat → BitVec 32 → Prop} {depth : Nat}
  {state before after : Threads Core}

theorem outline_refl (core : Core) (state : Threads Core) :
    (outline Core).rely core state state :=
  fun huncontended => ⟨huncontended, fun hflag hset => ⟨hflag, hset, rfl, rfl⟩⟩

theorem Held.relied (hheld : Held core known before) (hrely : Unaffected core before after) :
    Held core known after := by
  intro huncontended
  obtain ⟨hbefore, hsame⟩ := hrely huncontended
  obtain ⟨hflag, hset, hknown⟩ := hheld hbefore
  obtain ⟨hflag, hset, hcounter, hsaved⟩ := hsame hflag hset
  exact ⟨hflag, hset, by rwa [hcounter, hsaved]⟩

/-- What a thread does while it has set the flag does not matter to others. -/
theorem Held.unaffected (hheld : Held core known before) (hne : other ≠ core)
    (hlog : Uncontended after → Uncontended before) : Unaffected other before after := by
  intro huncontended
  refine ⟨hlog huncontended, fun _ hset => ?_⟩
  obtain ⟨_, hown, _⟩ := hheld (hlog huncontended)
  rw [hown] at hset
  exact absurd (Option.some.inj hset).symm hne

/-- What is known of the local variables is kept with the assertion. -/
theorem Held.mono {weaker : Nat → BitVec 32 → Prop} (hheld : Held core known state)
    (himp : Uncontended state → ∀ counter cpuSR, known counter cpuSR → weaker counter cpuSR) :
    Held core weaker state := by
  intro huncontended
  obtain ⟨hflag, hset, hknown⟩ := hheld huncontended
  exact ⟨hflag, hset, himp huncontended _ _ hknown⟩

variable [DecidableEq Core]

theorem stable_held : (outline Core).Stable (linuxMachine Core) core () depth (Held core known) where
  always _ hstate _ huncontended := (hstate huncontended).2.1
  relied _ _ hbefore hrely := hbefore.relied hrely
  settled _ _ henabled := by cases henabled
  resumed _ _ _ henabled := by cases henabled

theorem stable_settled :
    (outline Core).Stable (linuxMachine Core) core () depth (Settled core depth) where
  always _ hstate hpos huncontended := (hstate hpos huncontended).2.1
  relied _ _ hbefore hrely hpos := (hbefore hpos).relied hrely
  settled _ _ henabled := by cases henabled
  resumed _ _ _ henabled := by cases henabled

/-! ## The procedures -/

/-- Read a variable of the module and remember its value. -/
theorem follows_read {Result : Type} (observe : Nat → BitVec 32 → Result)
    {rest : Result → Thread (Threads Core) Unit} {post : Unit → Threads Core → Prop}
    (hstate : Held core known state)
    (hrest : ∀ result after,
      Held core (fun counter cpuSR => known counter cpuSR ∧ observe counter cpuSR = result) after →
      (outline Core).Follows (linuxMachine Core) core () depth (rest result) post after) :
    (outline Core).Follows (linuxMachine Core) core () depth
      (get (fun state => observe state.tbxCritSectNestingCounter state.tbxCritSectCpuSR) >>= rest)
      post state := by
  apply Outline.follows_bind fun result after =>
    Held core (fun counter cpuSR => known counter cpuSR ∧ observe counter cpuSR = result) after
  · apply Outline.follows_get outline_refl stable_held hstate
    intro before hbefore huncontended
    obtain ⟨hflag, hset, hknown⟩ := hbefore huncontended
    exact ⟨hflag, hset, hknown, rfl⟩
  · exact hrest

theorem testAndSet_contended (hmem : .contended other ∈ state.log) :
    .contended other ∈ (testAndSet core state).log := by
  unfold testAndSet
  split
  · split
    · exact hmem
    · exact List.mem_cons_of_mem _ hmem
  · exact hmem

/-- A thread that sets the flag, or finds it set by itself, owns it. -/
theorem held_testAndSet (hstate : Settled core depth state) :
    Held core (fun counter cpuSR => Tracks depth counter cpuSR ∧
      (0 < depth → state.hardware.interruptsDisabledFlag = true)) (testAndSet core state) := by
  intro huncontended
  have hbefore : Uncontended state := fun other hmem =>
    huncontended other (testAndSet_contended hmem)
  have hdepth : Tracks depth state.tbxCritSectNestingCounter state.tbxCritSectCpuSR ∧
      (0 < depth → state.hardware.interruptsDisabledFlag = true) := by
    cases depth with
    | zero => exact ⟨.inl (Nat.zero_le _), by simp⟩
    | succ depth =>
        obtain ⟨hflag, _, htracks⟩ := hstate (Nat.succ_pos depth) hbefore
        exact ⟨htracks, fun _ => hflag⟩
  unfold testAndSet at huncontended ⊢
  split
  · next hflag =>
      split
      · next hset => exact ⟨hflag, hset, hdepth⟩
      · next hset =>
          rw [if_pos hflag, if_neg hset] at huncontended
          exact absurd (List.mem_cons_self ..) (huncontended core)
  · exact ⟨rfl, rfl, hdepth⟩

theorem unaffected_testAndSet (hne : other ≠ core) :
    Unaffected other state (testAndSet core state) := by
  intro huncontended
  have hbefore : Uncontended state := fun thread hmem =>
    huncontended thread (testAndSet_contended hmem)
  refine ⟨hbefore, fun hflag hset => ?_⟩
  unfold testAndSet at huncontended
  rw [if_pos hflag, if_neg (by rw [hset]; exact fun heq => hne (Option.some.inj heq))] at huncontended
  exact absurd (List.mem_cons_self ..) (huncontended core)

theorem follows_disable (hstate : Settled core depth state) :
    (outline Core).Follows (linuxMachine Core) core () depth
      ((linuxPort Core).tbxPortInterruptsDisable core)
      (fun result => Held core fun counter cpuSR => Tracks depth counter cpuSR ∧
        (0 < depth → result ≠ tbxPortCpuSrIrqEn)) state := by
  apply Outline.follows_bind fun wasSet => Held core fun counter cpuSR =>
    Tracks depth counter cpuSR ∧ (0 < depth → wasSet = true)
  · apply Outline.follows_atomic stable_settled hstate
    rintro before _ hbefore ⟨⟩
    exact ⟨fun other hne => unaffected_testAndSet hne, held_testAndSet hbefore⟩
  intro wasSet after hafter
  split
  · next hclear =>
      apply Outline.follows_bind fun _ => Held core fun counter cpuSR =>
        Tracks depth counter cpuSR ∧ (0 < depth → wasSet = true)
      · apply Outline.follows_atomic stable_held hafter
        intro before locked hbefore htaken
        split at htaken
        · cases htaken
          exact ⟨fun other hne => hbefore.unaffected hne id, hbefore⟩
        · cases htaken
      · intro _ after hafter
        refine Outline.follows_ret (hafter.mono ?_)
        rintro - counter cpuSR ⟨htracks, hset⟩
        exact ⟨htracks, fun hpos => absurd (hset hpos) (by simp [hclear])⟩
  · refine Outline.follows_ret (hafter.mono ?_)
    rintro - counter cpuSR ⟨htracks, -⟩
    exact ⟨htracks, fun _ => by decide⟩

/-- The counter after an increment, which may overflow. -/
theorem tracks_succ {counter : Nat} {cpuSR : BitVec 32} (htracks : Tracks depth counter cpuSR)
    (hpos : counter ≠ 0) (hlt : counter < 2 ^ 32) : Tracks (depth + 1) ((counter + 1) % 2 ^ 32) cpuSR := by
  unfold Tracks at htracks ⊢
  rcases htracks with hle | hzero | hsaved
  · omega
  · exact absurd hzero hpos
  · exact .inr (.inr hsaved)

theorem follows_enter (hstate : Settled core depth state) :
    (outline Core).Follows (linuxMachine Core) core () depth
      (tbxCriticalSectionEnter (linuxPort Core) core) (fun _ => Settled core (depth + 1)) state := by
  apply Outline.follows_bind _ (follows_disable hstate)
  intro result after hafter
  apply follows_read (fun counter _ => counter) hafter
  intro count after hafter
  apply Outline.follows_bind fun _ => Held core fun counter cpuSR =>
    Tracks (depth + 1) ((counter + 1) % 2 ^ 32) cpuSR
  · split
    · next hzero =>
        apply Outline.follows_modify stable_held hafter
        intro before hbefore
        refine ⟨fun other hne => hbefore.unaffected hne id, fun huncontended => ?_⟩
        obtain ⟨hflag, hset, ⟨_, hresult⟩, hcounter⟩ := hbefore huncontended
        refine ⟨hflag, hset, ?_⟩
        -- The counter is zero in a nested entry only if it overflowed before.
        change Tracks (depth + 1) ((before.tbxCritSectNestingCounter + 1) % 2 ^ 32) result
        rw [hcounter, hzero]
        cases depth with
        | zero => exact .inl (by decide)
        | succ depth => exact .inr (.inr (hresult (Nat.succ_pos depth)))
    · next hpos =>
        refine Outline.follows_ret fun huncontended => ?_
        obtain ⟨hflag, hset, ⟨htracks, _⟩, rfl⟩ := hafter huncontended
        exact ⟨hflag, hset, tracks_succ htracks hpos after.counter_lt⟩
  intro _ after hafter
  apply follows_read (fun counter _ => counter) hafter
  intro count after hafter
  apply Outline.follows_modify stable_held hafter
  intro before hbefore
  have hlog : Uncontended ((before.setNestingCounter (count + 1)).emit (.nested core)) →
      Uncontended before := fun huncontended thread hmem =>
    huncontended thread (List.mem_cons_of_mem _ hmem)
  refine ⟨fun other hne => hbefore.unaffected hne hlog, fun _ huncontended => ?_⟩
  obtain ⟨hflag, hset, htracks, rfl⟩ := hbefore (hlog huncontended)
  exact ⟨hflag, hset, htracks⟩

/-- The flag is cleared only by the outermost exit. -/
theorem follows_restore {cpuSR : BitVec 32}
    (hstate : Held core (fun counter saved => Tracks depth counter saved ∧
      (cpuSR = tbxPortCpuSrIrqEn → depth = 0)) state) :
    (outline Core).Follows (linuxMachine Core) core () depth
      ((linuxPort Core).tbxPortInterruptsRestore core cpuSR) (fun _ => Settled core depth) state := by
  change (outline Core).Follows (linuxMachine Core) core () depth
    (if cpuSR = tbxPortCpuSrIrqEn then _ else _) _ state
  split
  · next henabled =>
      apply Outline.follows_modify_bind (Held core fun counter saved =>
        Tracks depth counter saved ∧ (cpuSR = tbxPortCpuSrIrqEn → depth = 0)) stable_held hstate
      · exact fun before hbefore => ⟨fun other hne => hbefore.unaffected hne id, hbefore⟩
      intro after hafter
      apply Outline.follows_modify stable_held hafter
      intro before hbefore
      refine ⟨fun other hne => hbefore.unaffected hne id, fun hpos huncontended => ?_⟩
      obtain ⟨_, _, _, houtermost⟩ := hbefore huncontended
      exact absurd (houtermost henabled) (Nat.ne_of_gt hpos)
  · exact Outline.follows_ret fun _ => hstate.mono fun _ _ _ hknown => hknown.1

theorem follows_exit (hstate : Settled core (depth + 1) state) :
    (outline Core).Follows (linuxMachine Core) core () depth
      (tbxCriticalSectionExit (linuxPort Core) core) (fun _ => Settled core depth) state := by
  apply follows_read (fun counter _ => counter) (hstate (Nat.succ_pos depth))
  intro asserted after hafter
  apply Outline.follows_bind fun _ => Held core (Tracks (depth + 1))
  · split
    · exact Outline.follows_ret (hafter.mono fun _ _ _ hknown => hknown.1)
    · apply Outline.follows_modify stable_held hafter
      intro before hbefore
      have hlog : Uncontended (before.emit (.assertion core)) → Uncontended before :=
        fun huncontended thread hmem => huncontended thread (List.mem_cons_of_mem _ hmem)
      refine ⟨fun other hne => hbefore.unaffected hne hlog, fun huncontended => ?_⟩
      obtain ⟨hflag, hset, htracks, _⟩ := hbefore (hlog huncontended)
      exact ⟨hflag, hset, htracks⟩
  intro _ after hafter
  apply follows_read (fun counter _ => counter) hafter
  intro count after hafter
  split
  · next hpos =>
      apply follows_read (fun counter _ => counter) hafter
      intro value after hafter
      apply Outline.follows_modify_bind (Held core fun counter cpuSR =>
        Tracks depth counter cpuSR ∧ (counter = 0 → cpuSR = tbxPortCpuSrIrqEn → depth = 0))
        stable_held hafter
      · intro before hbefore
        have hlog : Uncontended ((before.setNestingCounter (value - 1)).emit (.unnested core)) →
            Uncontended before := fun huncontended thread hmem =>
          huncontended thread (List.mem_cons_of_mem _ hmem)
        refine ⟨fun other hne => hbefore.unaffected hne hlog, fun huncontended => ?_⟩
        obtain ⟨hflag, hset, ⟨htracks, rfl⟩, rfl⟩ := hbefore (hlog huncontended)
        refine ⟨hflag, hset, ?_⟩
        have hlt := before.counter_lt
        simp only [CritSect.emit_tbxCritSectNestingCounter, CritSect.emit_tbxCritSectCpuSR,
          CritSect.setNestingCounter_tbxCritSectNestingCounter,
          CritSect.setNestingCounter_tbxCritSectCpuSR,
          Nat.mod_eq_of_lt (Nat.lt_of_le_of_lt (Nat.sub_le _ 1) hlt)]
        rcases htracks with hle | hzero | hsaved
        · exact ⟨.inl (by omega), fun hlast _ => by omega⟩
        · omega
        · exact ⟨.inr (.inr hsaved), fun _ henabled => absurd henabled hsaved⟩
      intro after hafter
      apply follows_read (fun counter _ => counter) hafter
      intro last after hafter
      split
      · next hzero =>
          apply follows_read (fun _ cpuSR => cpuSR) hafter
          intro cpuSR after hafter
          apply follows_restore (hafter.mono _)
          rintro - counter saved ⟨⟨⟨htracks, houtermost⟩, hlast⟩, rfl⟩
          exact ⟨htracks, houtermost (hlast.trans hzero)⟩
      · exact Outline.follows_ret fun _ => hafter.mono fun _ _ _ hknown => hknown.1.1
  · next hzero =>
      -- The counter overflowed, so this exit does nothing.
      refine Outline.follows_ret fun _ => hafter.mono ?_
      rintro - counter cpuSR ⟨_, rfl⟩
      exact .inr (.inl (Nat.eq_zero_of_not_pos hzero))

theorem outline_sound : (outline Core).Sound (linuxMachine Core) where
  always_of_succ _ _ _ _ halways _ := halways (Nat.succ_pos _)
  stable _ _ _ := stable_settled
  status _ _ _ _ := rfl
  enter _ _ _ _ _ hstate := follows_enter hstate
  exit _ _ _ _ hstate := follows_exit hstate
  handler _ _ _ _ henabled := by cases henabled
  handlerEntry _ _ state _ := outline_refl _ state
  handlerReturn _ _ state _ := outline_refl _ state

end Threads

/-! ## Exclusion -/

variable [DecidableEq Core]

/-- The thread is between the return of its outermost entry and the call of the
matching exit. -/
def InsideSection (config : Config Core (Threads Core) Unit) (core : Core) : Prop :=
  ∃ context below, config.contexts core = context :: below ∧ 0 < context.depth

/-- No two threads are inside their sections. -/
def ThreadsExcluded (config : Config Core (Threads Core) Unit) : Prop :=
  ∀ one other, InsideSection config one → InsideSection config other → one = other

/-- In a run in which no thread finds the flag set by another one, threads
exclude each other. -/
theorem threads_excluded_of_uncontended {config : Config Core (Threads Core) Unit}
    (hreachable : (linuxMachine Core).Reachable (linuxStart Core) config)
    (huncontended : Threads.Uncontended config.shared) : ThreadsExcluded config := by
  have hagrees := Threads.outline_sound.reachable
    (fun core => ⟨(), fun hpos => absurd hpos (Nat.lt_irrefl 0)⟩) hreachable
  have hset : ∀ core, InsideSection config core → config.shared.hardware.flagSetBy = some core := by
    rintro core ⟨context, below, hcontexts, hinside⟩
    obtain ⟨base, _, _, heq, hholds, -⟩ := hagrees core
    rw [hcontexts] at heq
    cases heq
    exact hholds.always Threads.outline_sound hinside huncontended
  intro one other hone hother
  have hboth := hset one hone
  rw [hset other hother] at hboth
  exact (Option.some.inj hboth).symm

local instance two_threads_neZero : NeZero 2 := ⟨Nat.succ_ne_zero 1⟩

/-- The second thread calls while the first one leaves its section, and enters when
it is out. After the second one has left too, the first one enters anew. -/
def alternatingEntries : List (Fin 2 × Machine.Move) :=
  Machine.turn 0 ([.enter] ++ List.replicate 6 .act ++ [.finish, .exit]) ++
    Machine.turn 1 [.enter] ++ Machine.turn 0 (List.replicate 8 .act) ++
    Machine.turn 1 (List.replicate 6 .act ++ [.finish]) ++ Machine.turn 0 [.finish] ++
    Machine.turn 1 ([.exit] ++ List.replicate 8 .act ++ [.finish]) ++
    Machine.turn 0 ([.enter] ++ List.replicate 6 .act ++ [.finish])

theorem threads_excluded_alternating :
    ∃ config, (linuxMachine (Fin 2)).schedule alternatingEntries
        ((linuxMachine (Fin 2)).start (linuxStart (Fin 2))) = some config ∧
      config.shared.log = [.nested 0, .unnested 1, .nested 1, .unnested 0, .nested 0] ∧
      config.shared.hardware.critSectMutex = some 0 ∧ ThreadsExcluded config := by
  have hobserved : ((linuxMachine (Fin 2)).schedule alternatingEntries
      ((linuxMachine (Fin 2)).start (linuxStart (Fin 2)))).map (fun config =>
        (config.shared.log, config.shared.hardware.critSectMutex)) =
        some ([.nested 0, .unnested 1, .nested 1, .unnested 0, .nested 0], some 0) := by
    decide +kernel
  obtain ⟨config, hschedule, hpair⟩ := Option.map_eq_some_iff.mp hobserved
  obtain ⟨hlog, hmutex⟩ := Prod.mk.inj hpair
  have huncontended : ∀ core, .contended core ∉ config.shared.log := by
    rw [hlog]
    decide
  exact ⟨config, hschedule, hlog, hmutex, threads_excluded_of_uncontended
    (Machine.reachable_of_schedule .refl hschedule) huncontended⟩

/-- The second thread finds the flag set and goes on without the mutex. -/
def contendedEntry : List (Fin 2 × Machine.Move) :=
  Machine.turn 0 ([.enter] ++ List.replicate 6 .act ++ [.finish]) ++
    Machine.turn 1 ([.enter] ++ List.replicate 4 .act ++ [.finish])

theorem threads_excluded_fails :
    ¬ ∀ config, (linuxMachine (Fin 2)).Reachable (linuxStart (Fin 2)) config →
      ThreadsExcluded config := by
  intro hexcluded
  have hdepths : ((linuxMachine (Fin 2)).schedule contendedEntry
      ((linuxMachine (Fin 2)).start (linuxStart (Fin 2)))).map (fun config =>
        ((config.contexts 0).map Context.depth, (config.contexts 1).map Context.depth)) =
        some ([1], [1]) := by
    decide +kernel
  obtain ⟨config, hschedule, hpair⟩ := Option.map_eq_some_iff.mp hdepths
  obtain ⟨hone, hother⟩ := Prod.mk.inj hpair
  have hinside : ∀ core, (config.contexts core).map Context.depth = [1] →
      InsideSection config core := by
    intro core hdepth
    obtain ⟨context, below, hcontexts, hcontext, -⟩ := List.map_eq_cons_iff.mp hdepth
    exact ⟨context, below, hcontexts, by rw [hcontext]; exact Nat.one_pos⟩
  have heq := hexcluded config (Machine.reachable_of_schedule .refl hschedule) 0 1
    (hinside 0 hone) (hinside 1 hother)
  cases heq

end MicroTbx

import MicroTbx.Foundation.Processor
import MicroTbx.Foundation.Run

/-! # Linearization

Contexts whose requests are one step each cannot tell an interleaving from a
serial use of the component: every request takes effect once, at a moment
between its call and its return, and the effects in the order of these moments
are a run of the component.
-/

/-- A request that has not returned, with its answer once it took effect. -/
structure PendingRequest (Request Result : Type) where
  request : Request
  answer : Option Result

variable {Client State Fault Request Result : Type} [DecidableEq Client]

/-- The calls and returns, explained by exchanges that follow each other, each
between the call and the return that it belongs to. Newest first. -/
inductive Linearized : List (Client × ClientMove State Request Result) →
    List (Client × Exchange State Request Result) →
    (Client → Option (PendingRequest Request Result)) → Prop
  | start : Linearized [] [] fun _ => none
  | called {moves : List (Client × ClientMove State Request Result)}
      {exchanges : List (Client × Exchange State Request Result)}
      {pending : Client → Option (PendingRequest Request Result)} {client : Client}
      {request : Request} (prior : Linearized moves exchanges pending)
      (idle : pending client = none) :
      Linearized ((client, .called request) :: moves) exchanges
        (Function.update pending client (some ⟨request, none⟩))
  | effect {moves : List (Client × ClientMove State Request Result)}
      {exchanges : List (Client × Exchange State Request Result)}
      {pending : Client → Option (PendingRequest Request Result)} {client : Client}
      {request : Request} {result : Result} {before after : State}
      (prior : Linearized moves exchanges pending)
      (waits : pending client = some ⟨request, none⟩) :
      Linearized moves ((client, ⟨request, result, before, after⟩) :: exchanges)
        (Function.update pending client (some ⟨request, some result⟩))
  | returned {moves : List (Client × ClientMove State Request Result)}
      {exchanges : List (Client × Exchange State Request Result)}
      {pending : Client → Option (PendingRequest Request Result)} {client : Client}
      {request : Request} {result : Result} (prior : Linearized moves exchanges pending)
      (answered : pending client = some ⟨request, some result⟩) :
      Linearized ((client, .returned request result) :: moves) exchanges
        (Function.update pending client none)

namespace Linearized

variable {moves : List (Client × ClientMove State Request Result)}
  {exchanges : List (Client × Exchange State Request Result)}
  {pending : Client → Option (PendingRequest Request Result)} {client : Client} {request : Request}
  {result : Result}

/-- An answer is what the request had when it took effect. -/
theorem of_answered (hlinearized : Linearized moves exchanges pending)
    (hanswered : pending client = some ⟨request, some result⟩) :
    ∃ before after, (client, ⟨request, result, before, after⟩) ∈ exchanges := by
  induction hlinearized with
  | start => cases hanswered
  | @called moves exchanges pending other call prior idle ih =>
      by_cases hother : client = other
      · subst hother
        rw [Function.update_self] at hanswered
        cases hanswered
      · rw [Function.update_of_ne hother] at hanswered
        exact ih hanswered
  | @effect moves exchanges pending other call answer before after prior waits ih =>
      by_cases hother : client = other
      · subst hother
        rw [Function.update_self] at hanswered
        cases hanswered
        exact ⟨before, after, List.mem_cons_self⟩
      · rw [Function.update_of_ne hother] at hanswered
        obtain ⟨before, after, hmem⟩ := ih hanswered
        exact ⟨before, after, List.mem_cons_of_mem _ hmem⟩
  | @returned moves exchanges pending other call answer prior answered ih =>
      by_cases hother : client = other
      · subst hother
        rw [Function.update_self] at hanswered
        cases hanswered
      · rw [Function.update_of_ne hother] at hanswered
        exact ih hanswered

/-- What a context was told is what a request had when it took effect. -/
theorem of_returned (hlinearized : Linearized moves exchanges pending)
    (hreturned : (client, .returned request result) ∈ moves) :
    ∃ before after, (client, ⟨request, result, before, after⟩) ∈ exchanges := by
  induction hlinearized with
  | start => cases hreturned
  | called prior idle ih =>
      rcases List.mem_cons.mp hreturned with heq | hearlier
      · cases heq
      · exact ih hearlier
  | effect prior waits ih =>
      obtain ⟨before, after, hmem⟩ := ih hreturned
      exact ⟨before, after, List.mem_cons_of_mem _ hmem⟩
  | returned prior answered ih =>
      rcases List.mem_cons.mp hreturned with heq | hearlier
      · cases heq
        exact prior.of_answered answered
      · exact ih hearlier

end Linearized

/-! ## Contexts with requests of one step -/

/-- What has to be shown of contexts, by an invariant on what they have seen,
what they wait for and the state of the component. -/
structure Linearizes (clients : Clients Client State Fault Request Result)
    (interface : Interface State Fault Request Result)
    (inv : List (Client × ClientMove State Request Result) →
      (Client → Option (PendingRequest Request Result)) → State → Prop) : Prop where
  perform : clients.perform = interface.perform
  start : inv [] (fun _ => none) interface.initial
  called : ∀ moves pending state client request, inv (visible moves) pending state →
    pending client = none → clients.allowed moves client request →
    (interface.perform request).Atomic ∧ inv ((client, .called request) :: visible moves)
      (Function.update pending client (some ⟨request, none⟩)) state
  effect : ∀ moves pending state history client request, inv moves pending state →
    pending client = some ⟨request, none⟩ → interface.Run history state →
    interface.allowed history state request ∧
      (interface.perform request).Returns state fun result after =>
        inv moves (Function.update pending client (some ⟨request, some result⟩)) after
  returned : ∀ moves pending state client request result, inv moves pending state →
    pending client = some ⟨request, some result⟩ →
    inv ((client, .returned request result) :: moves) (Function.update pending client none) state

/-- What is left to do of a request: all of it, or to return. -/
def PendingRequest.left (perform : Request → Program State Fault Result)
    (pending : PendingRequest Request Result) : Request × Program State Fault Result :=
  (pending.request, match pending.answer with
    | none => perform pending.request
    | some result => .ret result)

/-- The configuration of an interleaving, and the serial run that explains it. -/
structure Explains (clients : Clients Client State Fault Request Result)
    (interface : Interface State Fault Request Result)
    (inv : List (Client × ClientMove State Request Result) →
      (Client → Option (PendingRequest Request Result)) → State → Prop)
    (config : ClientConfig Client State Fault Request Result)
    (exchanges : List (Client × Exchange State Request Result))
    (pending : Client → Option (PendingRequest Request Result)) : Prop where
  linearized : Linearized (visible config.moves) exchanges pending
  run : interface.Run (exchanges.map Prod.snd) config.shared
  inv : inv (visible config.moves) pending config.shared
  busy : ∀ client, config.busy client = (pending client).map (PendingRequest.left interface.perform)
  atomic : ∀ client request, pending client = some ⟨request, none⟩ →
    (interface.perform request).Atomic

namespace Linearizes

variable {clients : Clients Client State Fault Request Result}
  {interface : Interface State Fault Request Result}
  {inv : List (Client × ClientMove State Request Result) →
    (Client → Option (PendingRequest Request Result)) → State → Prop}
  {config next : ClientConfig Client State Fault Request Result}
  {exchanges : List (Client × Exchange State Request Result)}
  {pending : Client → Option (PendingRequest Request Result)}

/-- A move changes what one context waits for. -/
theorem busy_update (hbusy : ∀ client, config.busy client =
      (pending client).map (PendingRequest.left interface.perform)) {client : Client}
    (now : Option (PendingRequest Request Result)) (other : Client) :
    Function.update config.busy client (now.map (PendingRequest.left interface.perform)) other =
      (Function.update pending client now other).map (PendingRequest.left interface.perform) := by
  by_cases hother : other = client
  · subst hother
    rw [Function.update_self, Function.update_self]
  · rw [Function.update_of_ne hother, Function.update_of_ne hother]
    exact hbusy other

theorem atomic_update {client : Client} {now : Option (PendingRequest Request Result)}
    (hatomic : ∀ client request, pending client = some ⟨request, none⟩ →
      (interface.perform request).Atomic)
    (hnow : ∀ request, now = some ⟨request, none⟩ → (interface.perform request).Atomic)
    (other : Client) (request : Request)
    (hwaits : Function.update pending client now other = some ⟨request, none⟩) :
    (interface.perform request).Atomic := by
  by_cases hother : other = client
  · subst hother
    rw [Function.update_self] at hwaits
    exact hnow request hwaits
  · rw [Function.update_of_ne hother] at hwaits
    exact hatomic other request hwaits

/-- A pending request is as far as its context. -/
theorem exists_pending {client : Client} {request : Request}
    {program : Program State Fault Result}
    (hexplains : Explains clients interface inv config exchanges pending)
    (hbusy : config.busy client = some (request, program)) :
    (pending client = some ⟨request, none⟩ ∧ program = interface.perform request) ∨
      ∃ result, pending client = some ⟨request, some result⟩ ∧ program = .ret result := by
  rw [hexplains.busy client] at hbusy
  obtain ⟨⟨call, answer⟩, hpending, hleft⟩ := Option.map_eq_some_iff.mp hbusy
  cases answer with
  | none =>
      cases hleft
      exact .inl ⟨hpending, rfl⟩
  | some result =>
      cases hleft
      exact .inr ⟨result, hpending, rfl⟩

/-- A step of a context is the effect of its request. -/
theorem explains_step (hserial : Linearizes clients interface inv)
    (hexplains : Explains clients interface inv config exchanges pending) {client : Client}
    {request : Request} {rest : Program State Fault Result} {after : State}
    (hwaits : pending client = some ⟨request, none⟩)
    (hadvances : (interface.perform request).advance config.shared = some (rest, after)) :
    ∃ exchanges pending, Explains clients interface inv
      ⟨after, Function.update config.busy client (some (request, rest)),
        (client, .stepped request config.shared after) :: config.moves⟩ exchanges pending := by
  obtain ⟨hallowed, hreturns⟩ := hserial.effect _ _ _ _ client request hexplains.inv hwaits
    hexplains.run
  obtain ⟨result, final, hrun, hinv⟩ := hreturns.run 0
  have hatomic := hexplains.atomic client request hwaits
  rw [hatomic.advance_eq hrun] at hadvances
  cases hadvances
  exact ⟨_, _, .effect hexplains.linearized hwaits, .step hexplains.run hallowed hrun, hinv,
    busy_update hexplains.busy (some ⟨request, some result⟩),
    atomic_update hexplains.atomic fun _ heq => by cases heq⟩

/-- Every move is explained by the same exchanges, or by one more. -/
theorem explains (hserial : Linearizes clients interface inv) (hstep : clients.Step config next)
    (hexplains : Explains clients interface inv config exchanges pending) :
    ∃ exchanges pending, Explains clients interface inv next exchanges pending := by
  cases hstep with
  | @call client request idle isAllowed =>
      have hidle : pending client = none := by
        rw [hexplains.busy client, Option.map_eq_none_iff] at idle
        exact idle
      obtain ⟨hatomic, hinv⟩ := hserial.called _ _ _ client request hexplains.inv hidle isAllowed
      refine ⟨_, _, .called hexplains.linearized hidle, hexplains.run, hinv, fun other => ?_,
        atomic_update hexplains.atomic fun other heq => ?_⟩
      · rw [hserial.perform]
        exact busy_update hexplains.busy (some ⟨request, none⟩) other
      · cases heq
        exact hatomic
  | @step client request program rest after running advances =>
      rcases exists_pending hexplains running with ⟨hwaits, rfl⟩ | ⟨result, -, rfl⟩
      · exact hserial.explains_step hexplains hwaits advances
      · cases advances
  | @finish client request result finished =>
      rcases exists_pending hexplains finished with ⟨hwaits, hleft⟩ | ⟨answer, hanswered, heq⟩
      · have hatomic := hexplains.atomic client request hwaits
        rw [← hleft] at hatomic
        exact hatomic.elim
      · cases heq
        exact ⟨_, _, .returned hexplains.linearized hanswered, hexplains.run,
          hserial.returned _ _ _ client request _ hexplains.inv hanswered,
          busy_update hexplains.busy none,
          atomic_update hexplains.atomic fun _ heq => by cases heq⟩

/-- Whatever the interleaving, it is explained by a serial run. -/
theorem reachable (hserial : Linearizes clients interface inv)
    (hreachable : clients.Reachable interface.initial config) :
    ∃ exchanges pending, Explains clients interface inv config exchanges pending := by
  induction hreachable with
  | refl =>
      exact ⟨[], fun _ => none, .start, .start, hserial.start, fun _ => rfl,
        fun _ _ heq => by cases heq⟩
  | tail prior hstep ih =>
      obtain ⟨exchanges, pending, hexplains⟩ := ih
      exact hserial.explains hstep hexplains

/-- No context is stuck. -/
theorem live (hserial : Linearizes clients interface inv)
    (hexplains : Explains clients interface inv config exchanges pending) :
    Clients.Live config := by
  intro client request program hbusy
  rcases exists_pending hexplains hbusy with ⟨hwaits, rfl⟩ | ⟨result, -, rfl⟩
  · obtain ⟨-, hreturns⟩ := hserial.effect _ _ _ _ client request hexplains.inv hwaits hexplains.run
    obtain ⟨result, after, hadvance, -⟩ :=
      (hexplains.atomic client request hwaits).advance_of_returns hreturns
    exact .inr ⟨_, _, hadvance⟩
  · exact .inl ⟨result, rfl⟩

end Linearizes

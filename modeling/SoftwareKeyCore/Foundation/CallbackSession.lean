import SoftwareKeyCore.Foundation.ByteString
import SoftwareKeyCore.Foundation.CallbackMonad
import SoftwareKeyCore.Foundation.CounterStream
import SoftwareKeyCore.Foundation.FallibleResult
import SoftwareKeyCore.Foundation.PanickingResult

/-!
# Sessions with a callback that may do anything

A construction that may panic, over a callback in any monad that has panics (`CanPanic`).
`checkedCall` is a callback call whose output must have a given length. `Ensures` is what is known
of the value that a construction goes on with. Over a callback without
effects (`answering`) a construction has an `answer`, and `answer_bind_eq_ok_iff` takes an
accepting one apart.

Over a callback with a state of its own (`observed`), which may answer any byte string or any
error at every call, a construction has a result and the list of the calls it made. `FailsClosed`
says that it never panics and that a call with an error or an output of an undocumented length is
its last one and decides its result. `Stops` is the invariant behind it, for parts of a
construction: `Stops.bind`, `stops_checkedCall` and `Stops.foldlM` are its rules, and
`failsClosed_of_stops` is what they lead to. `NeverFailsWith` says that no run of a part ends with a
given error, with the same kind of rules.
-/

set_option autoImplicit false
set_option relaxedAutoImplicit false

namespace SoftwareKeyCore.CallbackSession

open Panicking

/-! ### Constructions that may panic -/

/-- A monad that has panics. -/
class CanPanic (m : Type → Type) where
  /-- A panic. -/
  abort : {α : Type} → m α

instance : CanPanic Option :=
  ⟨none⟩

instance {σ : Type} : CanPanic (StateT σ Option) :=
  ⟨fun _ ↦ none⟩

section

variable {m : Type → Type} [Monad m] {ε ε' α β : Type}

/-- The value of an operation, or a panic. -/
def orPanic [CanPanic m] (value : Option α) : ExceptT ε m α :=
  ExceptT.mk (match value with
    | some value => pure (.ok value)
    | none => CanPanic.abort)

/-- The value of a result, with its error. -/
def orThrow (result : Except ε α) : ExceptT ε m α :=
  ExceptT.mk (pure result)

/-- One call of a callback whose output must have a length. -/
def checkedCall (wrap : ε → ε') (invalid : ε') (length : ℕ) (call : m (Except ε ByteString)) :
    ExceptT ε' m ByteString := do
  let output ← liftCallback wrap call
  if output.length = length then pure output else throw invalid

/-- An operation within its bounds goes on with its value. -/
theorem orPanic_some_bind [CanPanic m] [LawfulMonad m] (value : α)
    (continuation : α → ExceptT ε m β) :
    (orPanic (some value) >>= continuation) = continuation value :=
  pure_bind value continuation

/-- A value that is there is no refusal. -/
theorem orThrow_orError_some_bind [LawfulMonad m] (error : ε) (value : α)
    (continuation : α → ExceptT ε m β) :
    (orThrow (FallibleResult.orError error (some value)) >>= continuation) = continuation value :=
  pure_bind value continuation

/-- A result that is there goes on with its value. -/
theorem orThrow_ok_bind [LawfulMonad m] (value : α) (continuation : α → ExceptT ε m β) :
    (orThrow (.ok value) >>= continuation) = continuation value :=
  pure_bind value continuation

/-- An error ends the construction. -/
theorem orThrow_error_bind [LawfulMonad m] (error : ε) (continuation : α → ExceptT ε m β) :
    (orThrow (.error error) >>= continuation) = throw error :=
  pure_bind (Except.error error) _

/-- A callback call, as a sequence. -/
theorem liftCallback_eq (wrap : ε → ε') (call : m (Except ε α)) :
    liftCallback wrap call = ExceptT.mk (call >>= fun answer ↦ pure (answer.mapError wrap)) := by
  unfold liftCallback
  congr 2
  funext answer
  cases answer with
  | ok value => rfl
  | error error => rfl

/-! ### Values that a construction goes on with -/

/-- Whatever comes after a construction only sees values of a kind: what comes after may be
exchanged for anything that is the same on them. -/
def Ensures (construction : ExceptT ε m α) (post : α → Prop) : Prop :=
  ∀ (γ : Type) (left right : α → ExceptT ε m γ), (∀ value, post value → left value = right value) →
    (construction >>= left) = (construction >>= right)

theorem ensures_pure [LawfulMonad m] {value : α} {post : α → Prop} (hpost : post value) :
    Ensures (pure value : ExceptT ε m α) post := by
  intro γ left right hequal
  rw [pure_bind, pure_bind, hequal value hpost]

theorem ensures_throw [LawfulMonad m] (error : ε) (post : α → Prop) :
    Ensures (throw error : ExceptT ε m α) post := by
  intro γ left right _
  have hthrow : ∀ next : α → ExceptT ε m γ,
      ((throw error : ExceptT ε m α) >>= next) = throw error := fun next ↦ pure_bind _ _
  rw [hthrow, hthrow]

theorem Ensures.bind [LawfulMonad m] {first : ExceptT ε m α} {second : α → ExceptT ε m β}
    {middle : α → Prop} {post : β → Prop} (hfirst : Ensures first middle)
    (hsecond : ∀ value, middle value → Ensures (second value) post) :
    Ensures (first >>= second) post := by
  intro γ left right hequal
  rw [bind_assoc, bind_assoc]
  exact hfirst γ _ _ fun value hvalue ↦ hsecond value hvalue γ left right hequal

theorem Ensures.mono {construction : ExceptT ε m α} {post post' : α → Prop}
    (hensures : Ensures construction post) (hpost : ∀ value, post value → post' value) :
    Ensures construction post' :=
  fun γ left right hequal ↦ hensures γ left right fun value hvalue ↦
    hequal value (hpost value hvalue)

/-- Nothing is known of the value of a construction in general. -/
theorem ensures_true (construction : ExceptT ε m α) : Ensures construction fun _ ↦ True := by
  intro γ left right hequal
  rw [funext fun value ↦ hequal value trivial]

/-- A checked call goes on with outputs of its length. -/
theorem ensures_checkedCall [LawfulMonad m] (wrap : ε → ε') (invalid : ε') (length : ℕ)
    (call : m (Except ε ByteString)) :
    Ensures (checkedCall wrap invalid length call) fun output ↦ output.length = length := by
  unfold checkedCall
  refine (ensures_true (liftCallback wrap call)).bind fun output _ ↦ ?_
  by_cases hlength : output.length = length
  · rw [if_pos hlength]
    exact ensures_pure hlength
  · rw [if_neg hlength]
    exact ensures_throw invalid _

/-- Two loops whose steps are the same on the states of an invariant are the same. -/
theorem foldlM_congr_of_ensures [LawfulMonad m] {ι : Type}
    {step step' : α → ι → ExceptT ε m α} (invariant : α → Prop) {indices : List ι}
    (hstep : ∀ index ∈ indices, ∀ state, invariant state →
      step state index = step' state index ∧ Ensures (step state index) invariant) {state : α}
    (hstate : invariant state) :
    indices.foldlM step state = indices.foldlM step' state ∧
      Ensures (indices.foldlM step state) invariant := by
  induction indices generalizing state with
  | nil => exact ⟨rfl, ensures_pure hstate⟩
  | cons index indices ih =>
    rw [List.forall_mem_cons] at hstep
    obtain ⟨hequal, hensures⟩ := hstep.1 state hstate
    rw [List.foldlM_cons, List.foldlM_cons, ← hequal]
    refine ⟨hensures α _ _ fun next hnext ↦ (ih hstep.2 hnext).1, ?_⟩
    exact hensures.bind fun next hnext ↦ (ih hstep.2 hnext).2

end

/-! ### Callbacks without effects -/

section

variable {Query ε ε' α β : Type}

/-- A callback without effects. -/
def answering (callback : Query → Except ε α) (query : Query) : Option (Except ε α) :=
  some (callback query)

theorem answer_pure_eq_ok_iff {value result : α} :
    answer (pure value : Panicking ε α) = some (.ok result) ↔ value = result := by
  rw [answer_pure, Option.some.injEq, Except.ok.injEq]

theorem answer_throw_ne_ok {error : ε} {result : α} :
    ¬ answer (throw error : Panicking ε α) = some (.ok result) := by
  rw [answer_throw, Option.some.injEq]
  exact fun h ↦ Except.noConfusion rfl rfl (heq_of_eq h)

theorem answer_orPanic_eq_ok_iff {value : Option α} {result : α} :
    answer (orPanic value : Panicking ε α) = some (.ok result) ↔ value = some result := by
  cases value with
  | none => exact iff_of_false (fun h ↦ nomatch h) (fun h ↦ nomatch h)
  | some value =>
    rw [Option.some.injEq]
    exact answer_pure_eq_ok_iff

theorem safe_orPanic {value? : Option α} {value : α} (hvalue : value? = some value) :
    Safe (orPanic value? : Panicking ε α) fun result ↦ result = value := by
  rw [hvalue]
  exact ⟨.ok value, rfl, fun _ hresult ↦ (Except.ok.inj hresult).symm⟩

/-- A bound that is not met is a panic, no error. -/
theorem avoids_orPanic {error : ε} (value : Option α) :
    Avoids error (orPanic value : Panicking ε α) := by
  intro hanswer
  cases value with
  | none => exact nomatch hanswer
  | some value => exact nomatch hanswer

theorem answer_orThrow_eq_ok_iff {outcome : Except ε α} {result : α} :
    answer (orThrow outcome : Panicking ε α) = some (.ok result) ↔ outcome = .ok result :=
  Option.some.injEq _ _ |>.to_iff

/-- A refusal that is not taken. -/
theorem answer_ite_throw_eq_ok_iff {refused : Prop} [Decidable refused] {error : ε}
    {construction : Panicking ε α} {result : α} :
    answer (if refused then throw error else construction) = some (.ok result) ↔
      ¬ refused ∧ answer construction = some (.ok result) := by
  split_ifs with hrefused
  · exact iff_of_false answer_throw_ne_ok fun h ↦ h.1 hrefused
  · rw [and_iff_right hrefused]

/-- A call accepts when the callback answers an output of the length. -/
theorem answer_checkedCall_eq_ok_iff {wrap : ε → ε'} {invalid : ε'} {length : ℕ}
    {callback : Query → Except ε ByteString} {query : Query} {output : ByteString} :
    answer (checkedCall wrap invalid length (answering callback query)) = some (.ok output) ↔
      callback query = .ok output ∧ output.length = length := by
  have hlift : ∀ value, answer (liftCallback wrap (answering callback query)) = some (.ok value) ↔
      callback query = .ok value := by
    intro value
    have hanswer : answer (liftCallback wrap (answering callback query)) =
        some ((callback query).mapError wrap) := by
      rw [liftCallback_eq]
      rfl
    rw [hanswer, Option.some.injEq, FallibleResult.mapError_eq_ok_iff]
  unfold checkedCall
  rw [answer_bind_eq_ok_iff]
  constructor
  · rintro ⟨value, hvalue, hchecked⟩
    by_cases hlength : value.length = length
    · rw [if_pos hlength, answer_pure_eq_ok_iff] at hchecked
      rw [← hchecked]
      exact ⟨(hlift value).mp hvalue, hlength⟩
    · rw [if_neg hlength] at hchecked
      exact absurd hchecked answer_throw_ne_ok
  · rintro ⟨houtput, hlength⟩
    refine ⟨output, (hlift output).mpr houtput, ?_⟩
    rw [if_pos hlength, answer_pure]

/-- A call of a callback whose outputs have the length. -/
theorem answer_checkedCall_of_length (wrap : ε → ε') (invalid : ε') {length : ℕ}
    {callback : Query → Except ε ByteString} {query : Query}
    (hlength : ∀ output, callback query = .ok output → output.length = length) :
    answer (checkedCall wrap invalid length (answering callback query)) =
      some ((callback query).mapError wrap) := by
  have hlift : answer (liftCallback wrap (answering callback query)) =
      some ((callback query).mapError wrap) := by
    rw [liftCallback_eq]
    rfl
  unfold checkedCall
  cases hcallback : callback query with
  | ok output =>
    rw [hcallback] at hlift
    rw [answer_bind_of_ok hlift, if_pos (hlength output hcallback), answer_pure]
    rfl
  | error error =>
    rw [hcallback] at hlift
    exact answer_bind_of_error hlift

/-- A loop whose steps answer what a loop without panics does, on the states of an invariant. -/
theorem answer_foldlM {σ ι : Type} (wrap : ε → ε') {step : σ → ι → Panicking ε' σ}
    {next : σ → ι → Except ε σ} (invariant : σ → Prop) {indices : List ι}
    (hstep : ∀ index ∈ indices, ∀ state, invariant state →
      answer (step state index) = some ((next state index).mapError wrap) ∧
        ∀ state', next state index = .ok state' → invariant state') {state : σ}
    (hstate : invariant state) :
    answer (indices.foldlM step state) = some ((indices.foldlM next state).mapError wrap) ∧
      ∀ final, indices.foldlM next state = .ok final → invariant final := by
  induction indices generalizing state with
  | nil =>
    refine ⟨rfl, fun final hfinal ↦ ?_⟩
    rw [← Except.ok.inj hfinal]
    exact hstate
  | cons index indices ih =>
    rw [List.forall_mem_cons] at hstep
    obtain ⟨hanswer, hinvariant⟩ := hstep.1 state hstate
    rw [List.foldlM_cons, List.foldlM_cons]
    cases hnext : next state index with
    | ok state' =>
      rw [hnext] at hanswer
      rw [answer_bind_of_ok hanswer]
      exact ih hstep.2 (hinvariant state' hnext)
    | error error =>
      rw [hnext] at hanswer
      rw [answer_bind_of_error hanswer]
      exact ⟨rfl, fun final hfinal ↦ Except.noConfusion rfl rfl (heq_of_eq hfinal)⟩

/-- A loop whose steps accept, on the states of an invariant. -/
theorem answer_foldlM_of_ok {σ ι : Type} {step : σ → ι → Panicking ε σ} {next : σ → ι → σ}
    (invariant : σ → Prop) {indices : List ι}
    (hstep : ∀ index ∈ indices, ∀ state, invariant state →
      answer (step state index) = some (.ok (next state index)) ∧ invariant (next state index))
    {state : σ} (hstate : invariant state) :
    answer (indices.foldlM step state) = some (.ok (indices.foldl next state)) := by
  induction indices generalizing state with
  | nil => rfl
  | cons index indices ih =>
    rw [List.forall_mem_cons] at hstep
    obtain ⟨hanswer, hinvariant⟩ := hstep.1 state hstate
    rw [List.foldlM_cons, List.foldl_cons, answer_bind_of_ok hanswer]
    exact ih hstep.2 hinvariant

/-- A loop whose steps append blocks to an output, each block cut to what is missing of a length. -/
theorem answer_foldlM_append_take {ι : Type} {step : List α → ι → Panicking ε (List α)}
    {block : ι → List α} {length : ℕ} {indices : List ι}
    (hstep : ∀ index ∈ indices, ∀ output : List α, output.length ≤ length →
      answer (step output index) = some (.ok (output ++
        (block index).take (min (length - output.length) (block index).length))))
    {output : List α} (houtput : output.length ≤ length) :
    answer (indices.foldlM step output) =
      some (.ok (output ++ (indices.flatMap block).take (length - output.length))) := by
  have hnext : ∀ index ∈ indices, ∀ output : List α, output.length ≤ length →
      answer (step output index) = some (.ok (output ++
        (block index).take (min (length - output.length) (block index).length))) ∧
      (output ++ (block index).take (min (length - output.length) (block index).length)).length ≤
        length := by
    intro index hindex output houtput
    refine ⟨hstep index hindex output houtput, ?_⟩
    rw [List.length_append, List.length_take]
    omega
  have htake := CounterStream.foldl_append_take_missing (indices.map block) houtput
  rw [List.foldl_map, ← List.flatMap_def] at htake
  rw [answer_foldlM_of_ok (fun output ↦ output.length ≤ length) hnext houtput]
  exact congrArg (fun output ↦ some (Except.ok output)) htake

end

/-! ### Callbacks with a state -/

/-- A call: what the callback was asked and what it answered. -/
structure Call (Query ε : Type) where
  query : Query
  answer : Except ε ByteString

/-- Computations over a callback with a state, whose calls are listed. -/
abbrev Observed (σ Query ε : Type) := StateT (σ × List (Call Query ε)) Option

/-- A callback whose calls are listed. -/
abbrev ObservedCallback (σ Query ε : Type) := Query → Observed σ Query ε (Except ε ByteString)

section

variable {σ Query ε ε' α β ι : Type}

/-- A callback with a state; its calls are listed. -/
def observed (callback : Query → StateM σ (Except ε ByteString)) (query : Query) :
    Observed σ Query ε (Except ε ByteString) := fun (state, calls) ↦
  let (answer, state) := callback query state
  some (answer, (state, calls ++ [⟨query, answer⟩]))

/-- The result of a construction and the calls it made, or a panic. -/
def runObserved (construction : ExceptT ε' (Observed σ Query ε) α) (state : σ) :
    Option (Except ε' α × List (Call Query ε)) :=
  (construction.run (state, [])).map fun (result, _, calls) ↦ (result, calls)

/-- Whatever the callback answers: the construction does not panic, a call that answers an error
is the last one and its error is the result, and a call that answers an output of a length that
is not documented is the last one and is reported. -/
def FailsClosed (documented : Query → ℕ) (wrap : ε → ε') (invalid : ε')
    (construction : ObservedCallback σ Query ε → ExceptT ε' (Observed σ Query ε) α) : Prop :=
  ∀ (callback : Query → StateM σ (Except ε ByteString)) (state : σ), ∃ result calls,
    runObserved (construction (observed callback)) state = some (result, calls) ∧
      ∀ before call after, calls = before ++ call :: after →
        (∀ error, call.answer = .error error → result = .error (wrap error) ∧ after = []) ∧
        ∀ output, call.answer = .ok output → output.length ≠ documented call.query →
          result = .error invalid ∧ after = []

variable (documented : Query → ℕ) (wrap : ε → ε') (invalid : ε')

/-- The call answered an output of the documented length. -/
def Call.IsDocumented (call : Call Query ε) : Prop :=
  ∃ output, call.answer = .ok output ∧ output.length = documented call.query

/-- How a part of a construction ends: with a value, with an error of its own, or with the error
of its last call, where all other calls went as documented. -/
inductive Verdict (post : α → Prop) : Except ε' α → List (Call Query ε) → Prop
  | value {value : α} {calls : List (Call Query ε)} (hpost : post value)
      (hcalls : ∀ call ∈ calls, call.IsDocumented documented) : Verdict post (.ok value) calls
  | refused {error : ε'} {calls : List (Call Query ε)}
      (hcalls : ∀ call ∈ calls, call.IsDocumented documented) : Verdict post (.error error) calls
  | failed {query : Query} {error : ε} {calls : List (Call Query ε)}
      (hcalls : ∀ call ∈ calls, call.IsDocumented documented) :
      Verdict post (.error (wrap error)) (calls ++ [⟨query, .error error⟩])
  | undocumented {query : Query} {output : ByteString} {calls : List (Call Query ε)}
      (houtput : output.length ≠ documented query)
      (hcalls : ∀ call ∈ calls, call.IsDocumented documented) :
      Verdict post (.error invalid) (calls ++ [⟨query, .ok output⟩])

/-- From every state a part of a construction ends with a verdict. -/
def Stops (construction : ExceptT ε' (Observed σ Query ε) α) (post : α → Prop) : Prop :=
  ∀ state before, ∃ result state' calls,
    construction.run (state, before) = some (result, (state', before ++ calls)) ∧
      Verdict documented wrap invalid post result calls

variable {documented wrap invalid}

/-- Calls before a verdict that all went as documented keep it a verdict. -/
theorem Verdict.append {post : α → Prop} {result : Except ε' α} {before calls : List (Call Query ε)}
    (hbefore : ∀ call ∈ before, call.IsDocumented documented)
    (hverdict : Verdict documented wrap invalid post result calls) :
    Verdict documented wrap invalid post result (before ++ calls) := by
  have hall : ∀ {calls : List (Call Query ε)}, (∀ call ∈ calls, call.IsDocumented documented) →
      ∀ call ∈ before ++ calls, call.IsDocumented documented := by
    intro calls hcalls call hmem
    exact (List.mem_append.mp hmem).elim (hbefore call) (hcalls call)
  cases hverdict with
  | value hpost hcalls => exact .value hpost (hall hcalls)
  | refused hcalls => exact .refused (hall hcalls)
  | failed hcalls =>
    rw [← List.append_assoc]
    exact .failed (hall hcalls)
  | undocumented houtput hcalls =>
    rw [← List.append_assoc]
    exact .undocumented houtput (hall hcalls)

theorem stops_pure {value : α} {post : α → Prop} (hpost : post value) :
    Stops (σ := σ) documented wrap invalid (pure value) post := by
  intro state before
  refine ⟨.ok value, state, [], ?_, .value hpost (by simp)⟩
  rw [List.append_nil]
  rfl

theorem stops_throw (error : ε') (post : α → Prop) :
    Stops (σ := σ) documented wrap invalid (throw error) post := by
  intro state before
  refine ⟨.error error, state, [], ?_, .refused (by simp)⟩
  rw [List.append_nil]
  rfl

/-- A sequence goes on with the value of an operation within its bounds. -/
theorem stops_orPanic_bind {operation : Option α} {value : α}
    {continuation : α → ExceptT ε' (Observed σ Query ε) β} {post : β → Prop}
    (hoperation : operation = some value)
    (hstops : Stops documented wrap invalid (continuation value) post) :
    Stops documented wrap invalid (orPanic operation >>= continuation) post := by
  rw [hoperation, orPanic_some_bind]
  exact hstops

theorem stops_orThrow {result : Except ε' α} {post : α → Prop}
    (hpost : ∀ value, result = .ok value → post value) :
    Stops (σ := σ) documented wrap invalid (orThrow result) post := by
  cases result with
  | ok value => exact stops_pure (hpost value rfl)
  | error error => exact stops_throw error post

/-- A sequence runs its second part on the value and from the session of its first part. -/
theorem run_bind_of_ok {first : ExceptT ε' (Observed σ Query ε) α}
    {second : α → ExceptT ε' (Observed σ Query ε) β} {value : α}
    {session session' : σ × List (Call Query ε)}
    (hfirst : first.run session = some (.ok value, session')) :
    (first >>= second).run session = (second value).run session' := by
  change Option.bind (first.run session) _ = _
  rw [hfirst]
  rfl

/-- A sequence ends with the error of its first part. -/
theorem run_bind_of_error {first : ExceptT ε' (Observed σ Query ε) α}
    {second : α → ExceptT ε' (Observed σ Query ε) β} {error : ε'}
    {session session' : σ × List (Call Query ε)}
    (hfirst : first.run session = some (.error error, session')) :
    (first >>= second).run session = some (.error error, session') := by
  change Option.bind (first.run session) _ = _
  rw [hfirst]
  rfl

/-! ### Accepting runs -/

/-- A sequence accepts when its first part does and its second part does on the value. -/
theorem run_bind_eq_ok_iff {first : ExceptT ε' (Observed σ Query ε) α}
    {second : α → ExceptT ε' (Observed σ Query ε) β} {result : β}
    {session final : σ × List (Call Query ε)} :
    (first >>= second).run session = some (.ok result, final) ↔
      ∃ value middle, first.run session = some (.ok value, middle) ∧
        (second value).run middle = some (.ok result, final) := by
  constructor
  · intro hrun
    rcases hfirst : first.run session with _ | ⟨outcome, middle⟩
    · change Option.bind (first.run session) _ = _ at hrun
      rw [hfirst] at hrun
      cases hrun
    · cases outcome with
      | error error =>
        rw [run_bind_of_error hfirst] at hrun
        cases hrun
      | ok value =>
        rw [run_bind_of_ok hfirst] at hrun
        exact ⟨value, middle, rfl, hrun⟩
  · rintro ⟨value, middle, hfirst, hsecond⟩
    rw [run_bind_of_ok hfirst, hsecond]

theorem run_pure_eq_ok_iff {value result : α} {session final : σ × List (Call Query ε)} :
    (pure value : ExceptT ε' (Observed σ Query ε) α).run session = some (.ok result, final) ↔
      value = result ∧ session = final := by
  change some (Except.ok value, session) = _ ↔ _
  rw [Option.some.injEq, Prod.mk.injEq, Except.ok.injEq]

theorem run_throw_ne_ok {error : ε'} {result : α} {session final : σ × List (Call Query ε)} :
    ¬ (throw error : ExceptT ε' (Observed σ Query ε) α).run session =
      some (.ok result, final) := by
  change ¬ some (Except.error error, session) = _
  simp

theorem run_orPanic_eq_ok_iff {operation : Option α} {result : α}
    {session final : σ × List (Call Query ε)} :
    (orPanic operation : ExceptT ε' (Observed σ Query ε) α).run session =
        some (.ok result, final) ↔ operation = some result ∧ session = final := by
  cases operation with
  | none => exact iff_of_false (fun h ↦ nomatch h) (fun h ↦ nomatch h.1)
  | some value =>
    rw [Option.some.injEq]
    exact run_pure_eq_ok_iff

theorem run_orThrow_eq_ok_iff {outcome : Except ε' α} {result : α}
    {session final : σ × List (Call Query ε)} :
    (orThrow outcome : ExceptT ε' (Observed σ Query ε) α).run session =
        some (.ok result, final) ↔ outcome = .ok result ∧ session = final := by
  change some (outcome, session) = _ ↔ _
  rw [Option.some.injEq, Prod.mk.injEq]

/-- A refusal that is not taken. -/
theorem run_ite_throw_eq_ok_iff {refused : Prop} [Decidable refused] {error : ε'}
    {construction : ExceptT ε' (Observed σ Query ε) α} {result : α}
    {session final : σ × List (Call Query ε)} :
    (if refused then throw error else construction).run session = some (.ok result, final) ↔
      ¬ refused ∧ construction.run session = some (.ok result, final) := by
  split_ifs with hrefused
  · exact iff_of_false run_throw_ne_ok fun h ↦ h.1 hrefused
  · rw [and_iff_right hrefused]

/-! ### Calls -/

variable (wrap) in
/-- A callback call answers what the callback answers, with its error wrapped. -/
theorem run_liftCallback {callback : Query → StateM σ (Except ε ByteString)} {query : Query}
    {state state' : σ} {answer : Except ε ByteString}
    (hcall : callback query state = (answer, state')) (before : List (Call Query ε)) :
    (liftCallback wrap (observed callback query)).run (state, before) =
      some (answer.mapError wrap, (state', before ++ [⟨query, answer⟩])) := by
  have hobserved : observed callback query (state, before) =
      some (answer, (state', before ++ [⟨query, answer⟩])) := by
    change some ((callback query state).1, ((callback query state).2, _)) = _
    rw [hcall]
  have hbind : (liftCallback wrap (observed callback query)).run (state, before) =
      (observed callback query (state, before)).bind fun (answer, session) ↦
        some (answer.mapError wrap, session) := by
    rw [liftCallback_eq]
    rfl
  rw [hbind, hobserved]
  rfl

variable (wrap invalid) in
/-- A checked call is one call. -/
theorem exists_run_checkedCall (callback : Query → StateM σ (Except ε ByteString)) (query : Query)
    (length : ℕ) (state : σ) (before : List (Call Query ε)) :
    ∃ result state', (checkedCall wrap invalid length (observed callback query)).run
      (state, before) =
        some (result, (state', before ++ [⟨query, (callback query state).1⟩])) := by
  rcases hcall : callback query state with ⟨answer, state'⟩
  have hlift := run_liftCallback wrap hcall before
  unfold checkedCall
  cases answer with
  | error error => exact ⟨.error (wrap error), state', run_bind_of_error hlift⟩
  | ok output =>
    rw [run_bind_of_ok hlift]
    by_cases houtput : output.length = length
    · rw [if_pos houtput]
      exact ⟨.ok output, state', rfl⟩
    · rw [if_neg houtput]
      exact ⟨.error invalid, state', rfl⟩

/-- A call that accepts adds itself, with its output, to the calls. -/
theorem run_checkedCall_of_eq_ok {callback : Query → StateM σ (Except ε ByteString)}
    {query : Query} {length : ℕ} {output : ByteString} {session final : σ × List (Call Query ε)}
    (hrun : (checkedCall wrap invalid length (observed callback query)).run session =
      some (.ok output, final)) :
    final.2 = session.2 ++ [⟨query, .ok output⟩] ∧ output.length = length := by
  unfold checkedCall at hrun
  obtain ⟨value, middle, hlift, hchecked⟩ := run_bind_eq_ok_iff.mp hrun
  rcases hcall : callback query session.1 with ⟨answer, state⟩
  rw [← Prod.mk.eta (p := session), run_liftCallback wrap hcall, Option.some.injEq,
    Prod.mk.injEq, FallibleResult.mapError_eq_ok_iff] at hlift
  by_cases hlength : value.length = length
  · rw [if_pos hlength, run_pure_eq_ok_iff] at hchecked
    obtain ⟨rfl, rfl⟩ := hchecked
    obtain ⟨rfl, rfl⟩ := hlift
    exact ⟨rfl, hlength⟩
  · rw [if_neg hlength] at hchecked
    exact absurd hchecked run_throw_ne_ok

/-- A construction that ends with a value it computes makes the calls of its first part. -/
theorem exists_run_bind_pure {first : ExceptT ε' (Observed σ Query ε) α} {result : Except ε' α}
    {session session' : σ × List (Call Query ε)}
    (hfirst : first.run session = some (result, session')) (compute : α → β) :
    ∃ result', (first >>= fun value ↦ pure (compute value)).run session =
      some (result', session') := by
  cases result with
  | ok value => exact ⟨.ok (compute value), run_bind_of_ok hfirst⟩
  | error error => exact ⟨.error error, run_bind_of_error hfirst⟩

/-! ### Errors that a run does not end with -/

/-- No run of a part of a construction ends with the error. -/
def NeverFailsWith (error : ε') (construction : ExceptT ε' (Observed σ Query ε) α) : Prop :=
  ∀ session final, construction.run session ≠ some (.error error, final)

theorem neverFailsWith_pure {error : ε'} (value : α) :
    NeverFailsWith error (pure value : ExceptT ε' (Observed σ Query ε) α) := by
  intro session final hrun
  change some (Except.ok value, session) = _ at hrun
  simp at hrun

theorem neverFailsWith_throw {error other : ε'} (hne : other ≠ error) :
    NeverFailsWith error (throw other : ExceptT ε' (Observed σ Query ε) α) := by
  intro session final hrun
  change some (Except.error other, session) = _ at hrun
  rw [Option.some.injEq, Prod.mk.injEq, Except.error.injEq] at hrun
  exact hne hrun.1

/-- A bound that is not met is a panic, no error. -/
theorem neverFailsWith_orPanic {error : ε'} (operation : Option α) :
    NeverFailsWith error (orPanic operation : ExceptT ε' (Observed σ Query ε) α) := by
  cases operation with
  | none => exact fun session final hrun ↦ Option.some_ne_none _ hrun.symm
  | some value => exact neverFailsWith_pure value

/-- What comes after a part only has to be looked at where the part accepts. -/
theorem NeverFailsWith.bind {error : ε'} {first : ExceptT ε' (Observed σ Query ε) α}
    {second : α → ExceptT ε' (Observed σ Query ε) β} (hfirst : NeverFailsWith error first)
    (hsecond : ∀ value session middle, first.run session = some (.ok value, middle) →
      NeverFailsWith error (second value)) :
    NeverFailsWith error (first >>= second) := by
  intro session final hrun
  rcases hresult : first.run session with _ | ⟨result, middle⟩
  · change Option.bind (first.run session) _ = _ at hrun
    rw [hresult] at hrun
    cases hrun
  · cases result with
    | ok value =>
      rw [run_bind_of_ok hresult] at hrun
      exact hsecond value session middle hresult middle final hrun
    | error other =>
      rw [run_bind_of_error hresult, Option.some.injEq, Prod.mk.injEq, Except.error.injEq] at hrun
      exact hfirst session middle (hrun.1 ▸ hresult)

/-- A checked call fails with an error of its callback or with the one for a wrong length. -/
theorem neverFailsWith_checkedCall {error : ε'} (hwrap : ∀ failure, wrap failure ≠ error)
    (hinvalid : invalid ≠ error) (callback : Query → StateM σ (Except ε ByteString))
    (query : Query) (length : ℕ) :
    NeverFailsWith error (checkedCall wrap invalid length (observed callback query)) := by
  unfold checkedCall
  refine NeverFailsWith.bind ?_ fun output session middle _ ↦ ?_
  · intro session final hrun
    rcases hcall : callback query session.1 with ⟨answer, state⟩
    rw [← Prod.mk.eta (p := session), run_liftCallback wrap hcall, Option.some.injEq,
      Prod.mk.injEq] at hrun
    cases answer with
    | ok output => exact Except.noConfusion rfl rfl (heq_of_eq hrun.1)
    | error failure => exact hwrap failure (Except.error.inj hrun.1)
  · by_cases hlength : output.length = length
    · rw [if_pos hlength]
      exact neverFailsWith_pure output
    · rw [if_neg hlength]
      exact neverFailsWith_throw hinvalid

/-! ### Rules -/

/-- A sequence stops when its parts do. -/
theorem Stops.bind {first : ExceptT ε' (Observed σ Query ε) α}
    {second : α → ExceptT ε' (Observed σ Query ε) β} {middle : α → Prop} {post : β → Prop}
    (hfirst : Stops documented wrap invalid first middle)
    (hsecond : ∀ value, middle value → Stops documented wrap invalid (second value) post) :
    Stops documented wrap invalid (first >>= second) post := by
  intro state before
  obtain ⟨result, state', calls, hrun, hverdict⟩ := hfirst state before
  cases hverdict with
  | value hpost hcalls =>
    obtain ⟨result, state'', calls', hrun', hverdict'⟩ :=
      hsecond _ hpost state' (before ++ calls)
    refine ⟨result, state'', calls ++ calls', ?_, hverdict'.append hcalls⟩
    rw [run_bind_of_ok hrun, hrun', List.append_assoc]
  | refused hcalls => exact ⟨_, state', _, run_bind_of_error hrun, .refused hcalls⟩
  | failed hcalls => exact ⟨_, state', _, run_bind_of_error hrun, .failed hcalls⟩
  | undocumented houtput hcalls =>
    exact ⟨_, state', _, run_bind_of_error hrun, .undocumented houtput hcalls⟩

/-- A stronger postcondition. -/
theorem Stops.mono {construction : ExceptT ε' (Observed σ Query ε) α} {post post' : α → Prop}
    (hstops : Stops documented wrap invalid construction post)
    (hpost : ∀ value, post value → post' value) :
    Stops documented wrap invalid construction post' := by
  intro state before
  obtain ⟨result, state', calls, hrun, hverdict⟩ := hstops state before
  refine ⟨result, state', calls, hrun, ?_⟩
  cases hverdict with
  | value hvalue hcalls => exact .value (hpost _ hvalue) hcalls
  | refused hcalls => exact .refused hcalls
  | failed hcalls => exact .failed hcalls
  | undocumented houtput hcalls => exact .undocumented houtput hcalls

/-- A refusal or a construction that stops. -/
theorem stops_ite {refused : Prop} [Decidable refused]
    {first second : ExceptT ε' (Observed σ Query ε) α} {post : α → Prop}
    (hfirst : refused → Stops documented wrap invalid first post)
    (hsecond : ¬ refused → Stops documented wrap invalid second post) :
    Stops documented wrap invalid (if refused then first else second) post := by
  split_ifs with hrefused
  · exact hfirst hrefused
  · exact hsecond hrefused

/-- A call whose output is checked for its documented length. -/
theorem stops_checkedCall (callback : Query → StateM σ (Except ε ByteString)) {query : Query}
    {length : ℕ} (hlength : documented query = length) :
    Stops documented wrap invalid
      (checkedCall wrap invalid length (observed callback query))
      fun output ↦ output.length = length := by
  intro state before
  rcases hcall : callback query state with ⟨answer, state'⟩
  have hlift := run_liftCallback wrap hcall before
  unfold checkedCall
  cases answer with
  | error error =>
    refine ⟨.error (wrap error), state', [] ++ [⟨query, .error error⟩], ?_, .failed (by simp)⟩
    rw [run_bind_of_error hlift, List.nil_append]
  | ok output =>
    rw [run_bind_of_ok hlift]
    by_cases houtput : output.length = length
    · refine ⟨.ok output, state', [⟨query, .ok output⟩], ?_, .value houtput ?_⟩
      · rw [if_pos houtput]
        rfl
      · intro call hmem
        rw [List.mem_singleton.mp hmem]
        exact ⟨output, rfl, houtput.trans hlength.symm⟩
    · refine ⟨.error invalid, state', [] ++ [⟨query, .ok output⟩], ?_,
        .undocumented ?_ (by simp)⟩
      · rw [if_neg houtput]
        rfl
      · rw [hlength]
        exact houtput

/-- A loop stops when every step does and keeps the invariant. -/
theorem Stops.foldlM {step : α → ι → ExceptT ε' (Observed σ Query ε) α} {invariant : α → Prop}
    {indices : List ι}
    (hstep : ∀ index ∈ indices, ∀ value, invariant value →
      Stops documented wrap invalid (step value index) invariant) {value : α}
    (hvalue : invariant value) :
    Stops documented wrap invalid (indices.foldlM step value) invariant := by
  induction indices generalizing value with
  | nil => exact stops_pure hvalue
  | cons index indices ih =>
    rw [List.foldlM_cons]
    rw [List.forall_mem_cons] at hstep
    exact (hstep.1 value hvalue).bind fun value hvalue ↦ ih hstep.2 hvalue

/-- A construction that stops with a verdict fails closed. -/
theorem failsClosed_of_stops
    {construction : ObservedCallback σ Query ε → ExceptT ε' (Observed σ Query ε) α}
    {post : α → Prop}
    (hstops : ∀ callback, Stops documented wrap invalid (construction (observed callback)) post) :
    FailsClosed documented wrap invalid construction := by
  intro callback state
  obtain ⟨result, state', calls, hrun, hverdict⟩ := hstops callback state []
  refine ⟨result, calls, ?_, ?_⟩
  · rw [runObserved, hrun]
    rfl
  -- In a list of calls of which only the last went wrong, a call that went wrong is the last.
  have hlast : ∀ {calls : List (Call Query ε)} {last : Call Query ε},
      (∀ call ∈ calls, call.IsDocumented documented) → ∀ {before call after},
      calls ++ [last] = before ++ call :: after → ¬ call.IsDocumented documented →
        call = last ∧ after = [] := by
    intro calls last hcalls before call after hsplit hcall
    rcases List.eq_nil_or_concat after with rfl | ⟨after, other, rfl⟩
    · exact ⟨(List.append_inj_right' hsplit rfl |> List.singleton_inj.mp).symm, rfl⟩
    · rw [List.concat_eq_append, ← List.cons_append, ← List.append_assoc] at hsplit
      have hinit := List.append_inj_left' hsplit rfl
      exact absurd (hcalls call (hinit ▸ List.mem_append_right _ List.mem_cons_self)) hcall
  have hall : ∀ {calls : List (Call Query ε)}, (∀ call ∈ calls, call.IsDocumented documented) →
      ∀ {before call after}, calls = before ++ call :: after → call.IsDocumented documented := by
    intro calls hcalls before call after hsplit
    exact hcalls call (hsplit ▸ List.mem_append_right _ List.mem_cons_self)
  intro before call after hsplit
  have herror : ∀ error, call.answer = .error error → ¬ call.IsDocumented documented := by
    rintro error herror ⟨output, houtput, -⟩
    rw [herror] at houtput
    cases houtput
  have hwrong : ∀ output, call.answer = .ok output → output.length ≠ documented call.query →
      ¬ call.IsDocumented documented := by
    rintro output houtput hlength ⟨output', houtput', hlength'⟩
    obtain rfl := Except.ok.inj (houtput.symm.trans houtput')
    exact hlength hlength'
  cases hverdict with
  | value hpost hcalls | refused hcalls =>
    have hdocumented := hall hcalls hsplit
    exact ⟨fun error h ↦ absurd hdocumented (herror error h),
      fun output h hlength ↦ absurd hdocumented (hwrong output h hlength)⟩
  | failed hcalls =>
    constructor
    · intro error h
      obtain ⟨rfl, rfl⟩ := hlast hcalls hsplit (herror error h)
      obtain rfl := Except.error.inj h
      exact ⟨rfl, rfl⟩
    · intro output h hlength
      obtain ⟨rfl, rfl⟩ := hlast hcalls hsplit (hwrong output h hlength)
      cases h
  | undocumented houtput hcalls =>
    constructor
    · intro error h
      obtain ⟨rfl, rfl⟩ := hlast hcalls hsplit (herror error h)
      cases h
    · intro output h hlength
      obtain ⟨-, rfl⟩ := hlast hcalls hsplit (hwrong output h hlength)
      exact ⟨rfl, rfl⟩

end

end SoftwareKeyCore.CallbackSession

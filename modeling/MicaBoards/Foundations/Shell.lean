import Mathlib.Data.List.Basic

/-
  Shell scripts that run under `set -e`.

  A command acts on a state and ends with a status.  A simple
  command that fails ends the script, unless its status is
  asked for: behind `!`, before `&&` or `||`, and as the
  condition of an `if`.

  Key definitions include:
    * `Command`, `Command.run`
    * `Command.Keeps`
    * `Acts`

  Main declarations:
    * `Command.state_run`
    * `Acts.lines_step`, `Acts.lines_guard`, `Acts.forEach`
-/

------------------------------------------------------------
-- Commands
------------------------------------------------------------

namespace MicaBoards

namespace Shell

variable {σ α : Type}

/- What a command leaves: the script goes on or has ended. -/
inductive Outcome (σ : Type) where
  | next (ok : Bool) (state : σ)
  | exited (ok : Bool) (state : σ)

namespace Outcome

def bind
    (outcome : Outcome σ)
    (rest : Bool → σ → Outcome σ) :
    Outcome σ :=
  match outcome with
  | .next ok state => rest ok state
  | .exited ok state => .exited ok state

def state : Outcome σ → σ
  | .next _ state => state
  | .exited _ state => state

/- The status of the script, when this is its end -/
def ok : Outcome σ → Bool
  | .next ok _ => ok
  | .exited ok _ => ok

@[simp]
theorem bind_next
    (ok : Bool)
    (state : σ)
    (rest : Bool → σ → Outcome σ) :
    (next ok state).bind rest = rest ok state :=
  rfl

@[simp]
theorem bind_exited
    (ok : Bool)
    (state : σ)
    (rest : Bool → σ → Outcome σ) :
    (exited ok state).bind rest = exited ok state :=
  rfl

/- What holds after both halves holds after the whole. -/
theorem state_bind
    {P : σ → Prop}
    {outcome : Outcome σ}
    {rest : Bool → σ → Outcome σ}
    (hState : P outcome.state)
    (hRest : ∀ ok state, P state → P (rest ok state).state) :
    P (outcome.bind rest).state := by
  cases outcome with
  | next ok state => exact hRest ok state hState
  | exited ok state => exact hState

end Outcome

/- Words `α` are what a `for` goes through. -/
inductive Command (σ α : Type) where
  | simple (act : σ → σ × Bool)
  | negated (command : Command σ α)
  | andThen (first second : Command σ α)
  | orElse (first second : Command σ α)
  | ifThen (condition body : Command σ α)
  | seq (first second : Command σ α)
  | exit (ok : Bool)
  | forEach
      (words : σ → List α)
      (body : α → Command σ α)

/- The turns of a `for` -/
def turns
    (body : α → σ → Outcome σ) :
    List α → Bool → σ → Outcome σ
  | [], ok, state => .next ok state
  | word :: words, _, state =>
      (body word state).bind fun ok state =>
        turns body words ok state

namespace Command

/-
  A run of a command.  With `errexit` a simple command that
  fails ends the script.
-/
def run :
    Command σ α → (errexit : Bool) → σ → Outcome σ
  | .simple act, errexit, state =>
      if errexit && !(act state).2 then
        .exited false (act state).1
      else .next (act state).2 (act state).1
  | .negated command, _, state =>
      (command.run false state).bind fun ok state =>
        .next (!ok) state
  | .andThen first second, errexit, state =>
      (first.run false state).bind fun ok state =>
        if ok then second.run errexit state
        else .next false state
  | .orElse first second, errexit, state =>
      (first.run false state).bind fun ok state =>
        if ok then .next true state
        else second.run errexit state
  | .ifThen condition body, errexit, state =>
      (condition.run false state).bind fun ok state =>
        if ok then body.run errexit state
        else .next true state
  | .seq first second, errexit, state =>
      (first.run errexit state).bind fun _ state =>
        second.run errexit state
  | .exit ok, _, state => .exited ok state
  | .forEach words body, errexit, state =>
      turns (fun word => (body word).run errexit)
        (words state) true state

/- A command that only answers -/
def test (p : σ → Bool) : Command σ α :=
  .simple fun state => (state, p state)

/- A command that changes the state, or fails -/
def step (f : σ → Option σ) : Command σ α :=
  .simple fun state =>
    match f state with
    | some state => (state, true)
    | none => (state, false)

/- Lines of a script, one after the other -/
def lines : List (Command σ α) → Command σ α
  | [] => .simple fun state => (state, true)
  | command :: commands => command.seq (lines commands)

------------------------------------------------------------
-- What a Command Keeps
------------------------------------------------------------

/- Every simple command of a command keeps `P`. -/
def Keeps (P : σ → Prop) : Command σ α → Prop
  | .simple act => ∀ state, P state → P (act state).1
  | .negated command => command.Keeps P
  | .andThen first second => first.Keeps P ∧ second.Keeps P
  | .orElse first second => first.Keeps P ∧ second.Keeps P
  | .ifThen condition body =>
      condition.Keeps P ∧ body.Keeps P
  | .seq first second => first.Keeps P ∧ second.Keeps P
  | .exit _ => True
  | .forEach _ body => ∀ word, (body word).Keeps P

theorem state_turns
    {P : σ → Prop}
    {body : α → σ → Outcome σ}
    (hBody :
      ∀ word state, P state → P (body word state).state)
    (words : List α)
    (ok : Bool)
    {state : σ}
    (hState : P state) :
    P (turns body words ok state).state := by
  induction words generalizing ok state with
  | nil => exact hState
  | cons word words ih =>
      exact Outcome.state_bind (hBody word state hState)
        fun ok state hState => ih ok hState

/- What every simple command keeps, a run keeps. -/
theorem state_run
    {P : σ → Prop}
    {command : Command σ α}
    (hKeeps : command.Keeps P)
    (errexit : Bool)
    {state : σ}
    (hState : P state) :
    P (command.run errexit state).state := by
  induction command generalizing errexit state with
  | simple act =>
      have hAct := hKeeps state hState
      unfold run
      split <;> exact hAct
  | negated command ih =>
      exact Outcome.state_bind (ih hKeeps false hState)
        fun _ _ hState => hState
  | andThen first second ihFirst ihSecond =>
      refine Outcome.state_bind
        (ihFirst hKeeps.1 false hState) ?_
      intro ok state hState
      cases ok with
      | true => exact ihSecond hKeeps.2 errexit hState
      | false => exact hState
  | orElse first second ihFirst ihSecond =>
      refine Outcome.state_bind
        (ihFirst hKeeps.1 false hState) ?_
      intro ok state hState
      cases ok with
      | true => exact hState
      | false => exact ihSecond hKeeps.2 errexit hState
  | ifThen condition body ihCondition ihBody =>
      refine Outcome.state_bind
        (ihCondition hKeeps.1 false hState) ?_
      intro ok state hState
      cases ok with
      | true => exact ihBody hKeeps.2 errexit hState
      | false => exact hState
  | seq first second ihFirst ihSecond =>
      exact Outcome.state_bind
        (ihFirst hKeeps.1 errexit hState)
        fun _ _ hState => ihSecond hKeeps.2 errexit hState
  | exit ok => exact hState
  | forEach words body ih =>
      exact state_turns
        (fun word _ hState => ih word (hKeeps word) errexit hState)
        _ _ hState

/- A test changes nothing. -/
theorem keeps_test
    (P : σ → Prop)
    (p : σ → Bool) :
    (test p : Command σ α).Keeps P :=
  fun _ hState => hState

theorem keeps_step
    {P : σ → Prop}
    {f : σ → Option σ}
    (hStep : ∀ state next, f state = some next → P state → P next) :
    (step f : Command σ α).Keeps P := by
  intro state hState
  change P (match f state with
    | some state => (state, true)
    | none => (state, false)).1
  cases hF : f state with
  | none => exact hState
  | some next => exact hStep state next hF hState

end Command

------------------------------------------------------------
-- Scripts That Stop At What Fails
------------------------------------------------------------

open Command

/-
  Under `set -e` a command acts as `result` says: it goes on
  in that state, or it ends the script with a failure.
-/
def Acts
    (command : Command σ α)
    (state : σ) :
    (result : Option σ) → Prop
  | some next => ∃ ok, command.run true state = .next ok next
  | none => ∃ last, command.run true state = .exited false last

namespace Acts

theorem test
    (p : σ → Bool)
    (state : σ) :
    Acts (Command.test p : Command σ α) state
      (if p state then some state else none) := by
  cases hP : p state with
  | true =>
      refine ⟨true, ?_⟩
      simp [Command.test, Command.run, hP]
  | false =>
      refine ⟨state, ?_⟩
      simp [Command.test, Command.run, hP]

theorem step
    (f : σ → Option σ)
    (state : σ) :
    Acts (Command.step f : Command σ α) state (f state) := by
  cases hF : f state with
  | none =>
      refine ⟨state, ?_⟩
      simp [Command.step, Command.run, hF]
  | some next =>
      refine ⟨true, ?_⟩
      simp [Command.step, Command.run, hF]

/- `test || exit 1` -/
theorem test_orElse_exit
    (p : σ → Bool)
    (state : σ) :
    Acts ((Command.test p).orElse (.exit false) : Command σ α)
      state (if p state then some state else none) := by
  cases hP : p state with
  | true =>
      refine ⟨true, ?_⟩
      simp [Command.test, Command.run, hP]
  | false =>
      refine ⟨state, ?_⟩
      simp [Command.test, Command.run, hP]

/- `first && second || exit 1` -/
theorem test_andThen_orElse_exit
    (p q : σ → Bool)
    (state : σ) :
    Acts
      (((Command.test p).andThen (Command.test q)).orElse
        (.exit false) : Command σ α)
      state
      (if p state ∧ q state then some state else none) := by
  cases hP : p state <;> cases hQ : q state
  case true.true =>
    refine ⟨true, ?_⟩
    simp [Command.test, Command.run, hP, hQ]
  all_goals
    refine ⟨state, ?_⟩
    simp [Command.test, Command.run, hP, hQ]

/- `! test` lets every state through. -/
theorem negated_test
    (p : σ → Bool)
    (state : σ) :
    Acts (negated (Command.test p) : Command σ α) state
      (some state) :=
  ⟨!p state, rfl⟩

/- `if test; then body; fi` -/
theorem ifThen_test
    {p : σ → Bool}
    {body : Command σ α}
    {state : σ}
    {result : Option σ}
    (hBody : Acts body state result) :
    Acts (ifThen (Command.test p) body) state
      (if p state then result else some state) := by
  cases hP : p state with
  | true =>
      cases result with
      | none =>
          rcases hBody with ⟨last, hRun⟩
          refine ⟨last, ?_⟩
          simpa [Command.test, Command.run, hP] using hRun
      | some next =>
          rcases hBody with ⟨ok, hRun⟩
          refine ⟨ok, ?_⟩
          simpa [Command.test, Command.run, hP] using hRun
  | false =>
      refine ⟨true, ?_⟩
      simp [Command.test, Command.run, hP]

/- One command after the other -/
theorem seq
    {first second : Command σ α}
    {state : σ}
    {result : Option σ}
    {f : σ → Option σ}
    (hFirst : Acts first state result)
    (hSecond :
      ∀ next, result = some next → Acts second next (f next)) :
    Acts (first.seq second) state (result.bind f) := by
  cases result with
  | none =>
      rcases hFirst with ⟨last, hRun⟩
      refine ⟨last, ?_⟩
      rw [Command.run, hRun, Outcome.bind_exited]
  | some next =>
      rcases hFirst with ⟨ok, hRun⟩
      have hRest :
          (first.seq second).run true state =
            second.run true next := by
        rw [Command.run, hRun, Outcome.bind_next]
      have hNext := hSecond next rfl
      rw [Option.bind_some]
      cases hF : f next with
      | none =>
          rw [hF] at hNext
          rcases hNext with ⟨last, hRun⟩
          exact ⟨last, hRest.trans hRun⟩
      | some final =>
          rw [hF] at hNext
          rcases hNext with ⟨ok, hRun⟩
          exact ⟨ok, hRest.trans hRun⟩

/- No line is left. -/
theorem lines_nil (state : σ) :
    Acts (lines [] : Command σ α) state (some state) :=
  ⟨true, rfl⟩

section Lines

variable {rest : List (Command σ α)}
variable {state : σ}

/- A line that lets one state through -/
theorem lines_some
    {command : Command σ α}
    {next : σ}
    {result : Option σ}
    (hFirst : Acts command state (some next))
    (hRest : Acts (lines rest) next result) :
    Acts (lines (command :: rest)) state result := by
  refine hFirst.seq (f := fun _ => result) ?_
  intro after hAfter
  rw [← Option.some.inj hAfter]
  exact hRest

theorem lines_bind
    {command : Command σ α}
    {result : Option σ}
    {g : σ → Option σ}
    (hFirst : Acts command state result)
    (hRest : ∀ next, Acts (lines rest) next (g next)) :
    Acts (lines (command :: rest)) state (result >>= g) :=
  hFirst.seq fun next _ => hRest next

theorem lines_step
    {f g : σ → Option σ}
    (hRest : ∀ next, Acts (lines rest) next (g next)) :
    Acts (lines (.step f :: rest)) state (f state >>= g) :=
  lines_bind (step f state) hRest

/- A line that goes on only where `p` holds -/
theorem lines_guard
    {command : Command σ α}
    {p : Prop}
    [Decidable p]
    {result : Option σ}
    (hFirst :
      Acts command state (if p then some state else none))
    (hRest : Acts (lines rest) state result) :
    Acts (lines (command :: rest)) state
      (guard p >>= fun _ => result) := by
  by_cases hP : p
  · rw [if_pos hP] at hFirst
    rw [guard, if_pos hP]
    exact lines_some hFirst hRest
  · rw [if_neg hP] at hFirst
    rw [guard, if_neg hP]
    refine hFirst.seq (f := fun _ => result) ?_
    intro next hNext
    cases hNext

end Lines

/- A `for` whose every turn acts as `f` says is a fold. -/
theorem turns_foldlM
    {body : α → Command σ α}
    {f : σ → α → Option σ}
    (hBody : ∀ word state, Acts (body word) state (f state word))
    (words : List α)
    (ok : Bool)
    (state : σ) :
    match words.foldlM f state with
    | some next =>
        ∃ ok', turns (fun word => (body word).run true)
          words ok state = .next ok' next
    | none =>
        ∃ last, turns (fun word => (body word).run true)
          words ok state = .exited false last := by
  induction words generalizing ok state with
  | nil => exact ⟨ok, rfl⟩
  | cons word words ih =>
      have hTurn := hBody word state
      rw [List.foldlM_cons]
      cases hF : f state word with
      | none =>
          rw [hF] at hTurn
          rcases hTurn with ⟨last, hRun⟩
          refine ⟨last, ?_⟩
          rw [turns, hRun, Outcome.bind_exited]
      | some next =>
          rw [hF] at hTurn
          rcases hTurn with ⟨ok', hRun⟩
          rw [turns, hRun, Outcome.bind_next]
          exact ih ok' next

theorem forEach
    {words : σ → List α}
    {body : α → Command σ α}
    {f : σ → α → Option σ}
    (hBody : ∀ word state, Acts (body word) state (f state word))
    (state : σ) :
    Acts (Command.forEach words body) state
      ((words state).foldlM f state) := by
  have hTurns := turns_foldlM hBody (words state) true state
  cases hFold : (words state).foldlM f state with
  | none =>
      rw [hFold] at hTurns
      exact hTurns
  | some next =>
      rw [hFold] at hTurns
      exact hTurns

end Acts

end Shell

end MicaBoards

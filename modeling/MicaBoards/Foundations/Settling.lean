import Mathlib.Data.List.Basic
import Mathlib.Logic.Function.Basic

/-
  Keyed values that are visited one after another, each visit
  settling the value of its key: a second visit to the key
  finds nothing to do.

  Key definitions include:
    * `visit`, `visitAll`
    * `emitted`

  Main declarations:
    * `visitAll_apply`
    * `visitAll_eq_self`, `emitted_eq_nil`
    * `mem_emitted`
-/

------------------------------------------------------------
-- Visits
------------------------------------------------------------

namespace MicaBoards

namespace Settling

variable {κ α ε : Type}
variable [DecidableEq κ]

/- What a visit makes of the value of its key -/
def visit
    (f : κ → α → α)
    (values : κ → α)
    (key : κ) :
    κ → α :=
  Function.update values key (f key (values key))

def visitAll
    (f : κ → α → α)
    (values : κ → α)
    (keys : List κ) :
    κ → α :=
  keys.foldl (visit f) values

/- What the visits put out on their way -/
def emitted
    (f : κ → α → α)
    (emit : κ → α → List ε) :
    (κ → α) → List κ → List ε
  | _, [] => []
  | values, key :: keys =>
      emit key (values key) ++
        emitted f emit (visit f values key) keys

variable {f : κ → α → α}

theorem visit_of_ne
    (values : κ → α)
    {key other : κ}
    (hNe : other ≠ key) :
    visit f values key other = values other :=
  Function.update_of_ne hNe _ _

theorem visit_self
    (values : κ → α)
    (key : κ) :
    visit f values key key = f key (values key) :=
  Function.update_self _ _ _

/- A visit with nothing to do -/
theorem visit_eq_self
    {values : κ → α}
    {key : κ}
    (hSettled : f key (values key) = values key) :
    visit f values key = values := by
  rw [visit, hSettled, Function.update_eq_self]

theorem visitAll_append
    (values : κ → α)
    (keys more : List κ) :
    visitAll f values (keys ++ more) =
      visitAll f (visitAll f values keys) more :=
  List.foldl_append

theorem emitted_append
    {emit : κ → α → List ε}
    (values : κ → α)
    (keys more : List κ) :
    emitted f emit values (keys ++ more) =
      emitted f emit values keys ++
        emitted f emit (visitAll f values keys) more := by
  induction keys generalizing values with
  | nil => rfl
  | cons key keys ih =>
      rw [List.cons_append, emitted, emitted, ih,
        List.append_assoc]
      rfl

/- The visits settle their keys, and nothing else changes. -/
theorem visitAll_apply
    (hSettles : ∀ key value, f key (f key value) = f key value)
    (values : κ → α)
    (keys : List κ)
    (key : κ) :
    visitAll f values keys key =
      if key ∈ keys then f key (values key) else values key := by
  induction keys generalizing values with
  | nil => rfl
  | cons first keys ih =>
      rw [visitAll, List.foldl_cons, ← visitAll, ih]
      by_cases hFirst : key = first
      · rw [hFirst, visit_self, hSettles, ite_self,
          if_pos List.mem_cons_self]
      · rw [visit_of_ne values hFirst]
        simp only [List.mem_cons, hFirst, false_or]

/- Visits to settled keys change nothing. -/
theorem visitAll_eq_self
    {values : κ → α}
    {keys : List κ}
    (hSettled :
      ∀ key ∈ keys, f key (values key) = values key) :
    visitAll f values keys = values := by
  induction keys with
  | nil => rfl
  | cons first keys ih =>
      rcases List.forall_mem_cons.mp hSettled with
        ⟨hFirst, hRest⟩
      rw [visitAll, List.foldl_cons, visit_eq_self hFirst]
      exact ih hRest

theorem emitted_eq_nil
    {emit : κ → α → List ε}
    {values : κ → α}
    {keys : List κ}
    (hSettled :
      ∀ key ∈ keys, f key (values key) = values key)
    (hSilent : ∀ key ∈ keys, emit key (values key) = []) :
    emitted f emit values keys = [] := by
  induction keys with
  | nil => rfl
  | cons first keys ih =>
      rcases List.forall_mem_cons.mp hSettled with
        ⟨hFirst, hRest⟩
      rcases List.forall_mem_cons.mp hSilent with
        ⟨hNone, hNones⟩
      rw [emitted, visit_eq_self hFirst, hNone, List.nil_append]
      exact ih hRest hNones

/-
  When settled keys put out nothing, the visits put out what
  their keys do in the beginning.
-/
theorem mem_emitted
    {emit : κ → α → List ε}
    (hSilent : ∀ key value, emit key (f key value) = [])
    (values : κ → α)
    (keys : List κ)
    (e : ε) :
    e ∈ emitted f emit values keys ↔
      ∃ key ∈ keys, e ∈ emit key (values key) := by
  induction keys generalizing values with
  | nil => simp [emitted]
  | cons first keys ih =>
      rw [emitted, List.mem_append, ih, List.exists_mem_cons_iff]
      constructor
      · rintro (hFirst | ⟨key, hKey, hEmit⟩)
        · exact .inl hFirst
        · by_cases hSame : key = first
          · rw [hSame, visit_self, hSilent] at hEmit
            cases hEmit
          · rw [visit_of_ne values hSame] at hEmit
            exact .inr ⟨key, hKey, hEmit⟩
      · rintro (hFirst | ⟨key, hKey, hEmit⟩)
        · exact .inl hFirst
        · by_cases hSame : key = first
          · rw [hSame] at hEmit
            exact .inl hEmit
          · refine .inr ⟨key, hKey, ?_⟩
            rwa [visit_of_ne values hSame]

end Settling

end MicaBoards

import Mathlib.Data.List.AList

/-
  Finite maps laid over one another, entry by entry, where a
  value may refuse to go onto the one below it.

  Key definitions include:
    * `Layer`
    * `overlay`, `overlayAll`
    * `laid`, `column`

  Main declarations:
    * `column_of_overlayAll`
    * `overlayAll_isSome`
-/

------------------------------------------------------------
-- Layers
------------------------------------------------------------

namespace MicaBoards

namespace Overlay

variable {α β : Type}
variable [DecidableEq α]

/- A finite map -/
abbrev Layer (α β : Type) :=
  AList fun _ : α => β

/- What a value makes of the one below; `none` is a refusal. -/
variable (onto : Option β → β → Option β)

def put
    (under : Layer α β)
    (entry : Sigma fun _ : α => β) :
    Option (Layer α β) :=
  (onto (under.lookup entry.1) entry.2).map fun value =>
    under.insert entry.1 value

def overlay (under upper : Layer α β) : Option (Layer α β) :=
  upper.entries.foldlM (put onto) under

def overlayAll
    (under : Layer α β)
    (layers : List (Layer α β)) :
    Option (Layer α β) :=
  layers.foldlM (overlay onto) under

/- One key: what lies there, and what the next layer has. -/
def laid (under : Option β) :
    (upper : Option β) → Option (Option β)
  | none => some under
  | some value => (onto under value).map some

/- One key through all layers -/
def column
    (under : Option β)
    (uppers : List (Option β)) :
    Option (Option β) :=
  uppers.foldlM (laid onto) under

------------------------------------------------------------
-- One Layer
------------------------------------------------------------

variable {onto}

theorem laid_of_foldlM
    {entries : List (Sigma fun _ : α => β)}
    (hKeys : entries.NodupKeys)
    {under result : Layer α β}
    (hFold : entries.foldlM (put onto) under = some result)
    (key : α) :
    laid onto (under.lookup key) (entries.dlookup key) =
      some (result.lookup key) := by
  induction entries generalizing under with
  | nil =>
      obtain rfl : under = result := Option.some.inj hFold
      rfl
  | cons entry entries ih =>
      rcases List.nodupKeys_cons.mp hKeys with ⟨hNew, hRest⟩
      rw [List.foldlM_cons] at hFold
      rcases Option.bind_eq_some_iff.mp hFold with
        ⟨middle, hPut, hFold⟩
      rcases Option.map_eq_some_iff.mp hPut with
        ⟨value, hOnto, rfl⟩
      have hLaid := ih hRest hFold
      by_cases hKey : key = entry.1
      · rw [hKey, List.dlookup_eq_none.mpr hNew,
          AList.lookup_insert] at hLaid
        rw [hKey, List.dlookup_cons_eq, laid, hOnto]
        exact hLaid
      · rw [AList.lookup_insert_ne hKey] at hLaid
        rw [List.dlookup_cons_ne _ _ hKey]
        exact hLaid

theorem foldlM_isSome
    {entries : List (Sigma fun _ : α => β)}
    (hKeys : entries.NodupKeys)
    {under : Layer α β}
    (hLaid :
      ∀ key,
        (laid onto (under.lookup key)
          (entries.dlookup key)).isSome) :
    (entries.foldlM (put onto) under).isSome := by
  induction entries generalizing under with
  | nil => rfl
  | cons entry entries ih =>
      rcases List.nodupKeys_cons.mp hKeys with ⟨hNew, hRest⟩
      have hHere := hLaid entry.1
      rw [List.dlookup_cons_eq, laid, Option.isSome_map,
        Option.isSome_iff_exists] at hHere
      rcases hHere with ⟨value, hOnto⟩
      have hPut :
          put onto under entry =
            some (under.insert entry.1 value) := by
        rw [put, hOnto, Option.map_some]
      rw [List.foldlM_cons, hPut]
      refine ih hRest fun key => ?_
      by_cases hKey : key = entry.1
      · rw [hKey, List.dlookup_eq_none.mpr hNew]
        rfl
      · have hBelow := hLaid key
        rw [List.dlookup_cons_ne _ _ hKey] at hBelow
        rw [AList.lookup_insert_ne hKey]
        exact hBelow

/- A layer is laid over another key by key. -/
theorem laid_of_overlay
    {under upper result : Layer α β}
    (hOverlay : overlay onto under upper = some result)
    (key : α) :
    laid onto (under.lookup key) (upper.lookup key) =
      some (result.lookup key) :=
  laid_of_foldlM upper.nodupKeys hOverlay key

/- It can be laid when it can at each key. -/
theorem overlay_isSome
    {under upper : Layer α β}
    (hLaid :
      ∀ key,
        (laid onto (under.lookup key)
          (upper.lookup key)).isSome) :
    (overlay onto under upper).isSome :=
  foldlM_isSome upper.nodupKeys hLaid

------------------------------------------------------------
-- All Layers
------------------------------------------------------------

/- At each key, all layers are one column. -/
theorem column_of_overlayAll
    {layers : List (Layer α β)}
    {under result : Layer α β}
    (hOverlay : overlayAll onto under layers = some result)
    (key : α) :
    column onto (under.lookup key)
        (layers.map fun layer => layer.lookup key) =
      some (result.lookup key) := by
  induction layers generalizing under with
  | nil =>
      obtain rfl : under = result := Option.some.inj hOverlay
      rfl
  | cons layer layers ih =>
      rw [overlayAll, List.foldlM_cons] at hOverlay
      rcases Option.bind_eq_some_iff.mp hOverlay with
        ⟨middle, hFirst, hRest⟩
      rw [List.map_cons, column, List.foldlM_cons,
        laid_of_overlay hFirst key]
      exact ih hRest

/- All layers can be laid when each column can. -/
theorem overlayAll_isSome
    {layers : List (Layer α β)}
    {under : Layer α β}
    (hColumn :
      ∀ key,
        (column onto (under.lookup key)
          (layers.map fun layer => layer.lookup key)).isSome) :
    (overlayAll onto under layers).isSome := by
  induction layers generalizing under with
  | nil => rfl
  | cons layer layers ih =>
      have hFirst : (overlay onto under layer).isSome := by
        refine overlay_isSome fun key => ?_
        have hKey := hColumn key
        rw [List.map_cons, column, List.foldlM_cons] at hKey
        cases hLaid :
            laid onto (under.lookup key) (layer.lookup key) with
        | none =>
            rw [hLaid] at hKey
            exact hKey
        | some value => rfl
      rcases Option.isSome_iff_exists.mp hFirst with
        ⟨middle, hMiddle⟩
      rw [overlayAll, List.foldlM_cons, hMiddle]
      refine ih fun key => ?_
      have hKey := hColumn key
      rw [List.map_cons, column, List.foldlM_cons,
        laid_of_overlay hMiddle key] at hKey
      exact hKey

end Overlay

end MicaBoards

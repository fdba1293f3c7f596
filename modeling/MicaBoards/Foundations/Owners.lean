import Mathlib.Data.List.Pairwise

/-
  Keys and who claims them, in one pass over the claims.

  Each key has a list of owners.  A new claimant joins the
  list when it may share with every owner, and clashes
  otherwise.

  Key definitions include:
    * `claim`, `claimAll`
    * `fill`
    * `Shares`, `Records`

  Main declarations:
    * `mem_fill`
    * `clashes_eq_nil_iff`
    * `records_claimAll`
-/

------------------------------------------------------------
-- The Pass
------------------------------------------------------------

namespace MicaBoards

namespace Owners

variable {κ α : Type}
variable [DecidableEq κ]

/- The owners of each key, and the keys that clashed -/
structure State (κ α : Type) where
  owner : κ → List α
  clashes : List κ

/- One more owner of a key -/
def join
    (owner : κ → List α)
    (key : κ)
    (holder : α) :
    κ → List α :=
  fun k => if k = key then owner k ++ [holder] else owner k

variable (share : α → α → Bool)

def claim
    (state : State κ α)
    (claimed : κ × α) :
    State κ α :=
  let others := state.owner claimed.1
  if others.all (share claimed.2) then
    { state with
      owner := join state.owner claimed.1 claimed.2 }
  else { state with clashes := state.clashes ++ [claimed.1] }

/- Some claims, from the owners that are known -/
def claimAll
    (owner : κ → List α)
    (claims : List (κ × α)) :
    State κ α :=
  claims.foldl (claim share) { owner := owner, clashes := [] }

/- A table of rows, each a key and one word for it -/
def fill (rows : List (κ × α)) : κ → List α :=
  rows.foldl (fun owner row => join owner row.1 row.2)
    fun _ => []

------------------------------------------------------------
-- What the Pass Finds
------------------------------------------------------------

/- Two claims, the earlier first, that go together -/
def Shares (earlier later : κ × α) : Prop :=
  earlier.1 = later.1 → share later.2 earlier.2 = true

/- The owners of a key are those who claimed it, in order. -/
def Records
    (owner : κ → List α)
    (claims : List (κ × α)) :
    Prop :=
  ∀ key,
    owner key =
      (claims.filter fun claimed => claimed.1 = key).map Prod.snd

theorem records_nil :
    Records (fun _ : κ => ([] : List α)) [] :=
  fun _ => rfl

theorem records_join
    {owner : κ → List α}
    {claims : List (κ × α)}
    (hRecords : Records owner claims)
    (claimed : κ × α) :
    Records (join owner claimed.1 claimed.2)
      (claims ++ [claimed]) := by
  intro key
  unfold join
  by_cases hKey : key = claimed.1
  · simp [hKey, hRecords claimed.1]
  · simp [hKey, Ne.symm hKey, hRecords key]

theorem records_foldl_join
    {owner : κ → List α}
    {claims : List (κ × α)}
    (hRecords : Records owner claims)
    (rows : List (κ × α)) :
    Records
      (rows.foldl (fun owner row => join owner row.1 row.2) owner)
      (claims ++ rows) := by
  induction rows generalizing owner claims with
  | nil =>
      rw [List.append_nil]
      exact hRecords
  | cons row rows ih =>
      have hRest := ih (records_join hRecords row)
      rw [List.append_assoc, List.singleton_append] at hRest
      exact hRest

/- A table has for a key what its rows have for it. -/
theorem mem_fill
    {rows : List (κ × α)}
    {key : κ}
    {word : α} :
    word ∈ fill rows key ↔ (key, word) ∈ rows := by
  have hRecords := records_foldl_join records_nil rows key
  rw [List.nil_append] at hRecords
  rw [fill, hRecords, List.mem_map]
  constructor
  · intro hRow
    rcases hRow with ⟨⟨k, w⟩, hMem, rfl⟩
    rcases List.mem_filter.mp hMem with ⟨hMem, hKey⟩
    have hEq : k = key := of_decide_eq_true hKey
    rwa [hEq] at hMem
  · intro hMem
    exact ⟨(key, word),
      List.mem_filter.mpr ⟨hMem, decide_eq_true rfl⟩, rfl⟩

/- A claimant may join when its claim goes with all before. -/
theorem all_share_iff
    {owner : κ → List α}
    {before : List (κ × α)}
    (hRecords : Records owner before)
    (claimed : κ × α) :
    (owner claimed.1).all (share claimed.2) = true ↔
      ∀ earlier ∈ before, Shares share earlier claimed := by
  rw [hRecords claimed.1, List.all_eq_true]
  constructor
  · intro hAll earlier hEarlier hKey
    refine hAll earlier.2 (List.mem_map.mpr ⟨earlier, ?_, rfl⟩)
    exact List.mem_filter.mpr ⟨hEarlier, by simpa using hKey⟩
  · intro hShares holder hHolder
    rcases List.mem_map.mp hHolder with ⟨earlier, hMem, rfl⟩
    rcases List.mem_filter.mp hMem with ⟨hEarlier, hKey⟩
    exact hShares earlier hEarlier (by simpa using hKey)

theorem claim_of_share
    {state : State κ α}
    {claimed : κ × α}
    (hShare :
      (state.owner claimed.1).all (share claimed.2) = true) :
    claim share state claimed =
      { state with
        owner := join state.owner claimed.1 claimed.2 } :=
  if_pos hShare

/- A clash stays. -/
theorem clashes_foldl_ne_nil
    (claims : List (κ × α))
    {state : State κ α}
    (hClash : state.clashes ≠ []) :
    (claims.foldl (claim share) state).clashes ≠ [] := by
  induction claims generalizing state with
  | nil => exact hClash
  | cons claimed claims ih =>
      refine ih ?_
      unfold claim
      dsimp only
      split
      · exact hClash
      · exact List.append_ne_nil_of_right_ne_nil _
          (List.cons_ne_nil _ _)

/-
  From owners that record the claims before, the pass is free
  of clashes exactly when each claim goes with every earlier
  one.
-/
theorem clashes_eq_nil_iff
    {owner : κ → List α}
    {before : List (κ × α)}
    (hRecords : Records owner before)
    (hBefore : before.Pairwise (Shares share))
    (claims : List (κ × α)) :
    (claimAll share owner claims).clashes = [] ↔
      (before ++ claims).Pairwise (Shares share) := by
  induction claims generalizing owner before with
  | nil =>
      rw [List.append_nil]
      exact iff_of_true rfl hBefore
  | cons claimed claims ih =>
      by_cases hShare :
          (owner claimed.1).all (share claimed.2) = true
      · have hAll := (all_share_iff share hRecords claimed).mp hShare
        have hNext :
            (before ++ [claimed]).Pairwise (Shares share) := by
          rw [List.pairwise_append]
          refine ⟨hBefore, List.pairwise_singleton _ _, ?_⟩
          intro earlier hEarlier later hLater
          rw [List.mem_singleton.mp hLater]
          exact hAll earlier hEarlier
        have hRest := ih (records_join hRecords claimed) hNext
        rw [List.append_assoc, List.singleton_append] at hRest
        rw [claimAll, List.foldl_cons, claim_of_share share hShare]
        exact hRest
      · have hStep :
            claim share { owner := owner, clashes := [] } claimed =
              { owner := owner, clashes := [claimed.1] } :=
          if_neg hShare
        rw [claimAll, List.foldl_cons, hStep]
        refine iff_of_false
          (clashes_foldl_ne_nil share claims
            (List.cons_ne_nil _ _)) ?_
        intro hPairwise
        refine hShare ((all_share_iff share hRecords claimed).mpr ?_)
        intro earlier hEarlier
        exact (List.pairwise_append.mp hPairwise).2.2
          earlier hEarlier claimed List.mem_cons_self

/- A pass without a clash records every claim. -/
theorem records_claimAll
    {owner : κ → List α}
    {before : List (κ × α)}
    (hRecords : Records owner before)
    {claims : List (κ × α)}
    (hClean : (claimAll share owner claims).clashes = []) :
    Records (claimAll share owner claims).owner
      (before ++ claims) := by
  induction claims generalizing owner before with
  | nil =>
      rw [List.append_nil]
      exact hRecords
  | cons claimed claims ih =>
      by_cases hShare :
          (owner claimed.1).all (share claimed.2) = true
      · rw [claimAll, List.foldl_cons,
          claim_of_share share hShare] at hClean ⊢
        have hRest := ih (records_join hRecords claimed) hClean
        rw [List.append_assoc, List.singleton_append] at hRest
        exact hRest
      · have hStep :
            claim share { owner := owner, clashes := [] } claimed =
              { owner := owner, clashes := [claimed.1] } :=
          if_neg hShare
        rw [claimAll, List.foldl_cons, hStep] at hClean
        exact absurd hClean
          (clashes_foldl_ne_nil share claims
            (List.cons_ne_nil _ _))

end Owners

end MicaBoards

import Mathlib.Data.List.Basic
import Mathlib.Data.List.Induction
import Mathlib.Data.List.Nodup
import Mathlib.Data.List.Perm.Basic

/-
  Counting with a dictionary that keeps the order in which its
  keys came.

  Main declarations:
    * `Tally`, `Tally.get`, `Tally.set`
    * `Tally.of`
    * `Tally.get_of`
    * `Tally.mem_keys_of`
    * `Tally.keys_of_perm`
-/

------------------------------------------------------------
-- Dictionaries
------------------------------------------------------------

namespace MicaBoards

/- Keys with their counts. -/
abbrev Tally (α : Type) := List (α × Nat)

namespace Tally

variable {α : Type} [DecidableEq α]

/- The count of a key, 0 if it is not there. -/
def get : Tally α → α → Nat
| [], _ => 0
| (key, count) :: rest, a =>
    if key = a then count else get rest a

/- Give a key a count. A new key is put last. -/
def set : Tally α → α → Nat → Tally α
| [], a, count => [(a, count)]
| (key, old) :: rest, a, count =>
    if key = a then (key, count) :: rest
    else (key, old) :: set rest a count

omit [DecidableEq α] in
/- The keys, in the order in which they came. -/
def keys (tally : Tally α) : List α :=
  tally.map Prod.fst

/- Count the elements of a list. -/
def of (xs : List α) : Tally α :=
  xs.foldl (fun tally a => tally.set a (tally.get a + 1)) []

------------------------------------------------------------
-- Counts
------------------------------------------------------------

theorem get_set
    (tally : Tally α)
    (a b : α)
    (count : Nat) :
    (tally.set a count).get b =
      if a = b then count else tally.get b := by
  induction tally with
  | nil => rfl
  | cons entry tally ih =>
      rcases entry with ⟨key, old⟩
      rw [set]
      split_ifs with hKey hSame hSame
      · rw [get, if_pos (hKey.trans hSame)]
      · rw [get, get, if_neg (hKey ▸ hSame),
          if_neg (hKey ▸ hSame)]
      · rw [get, if_neg (hSame ▸ hKey), ih, if_pos hSame]
      · rw [get, get, ih, if_neg hSame]

theorem keys_set
    (tally : Tally α)
    (a : α)
    (count : Nat) :
    (tally.set a count).keys =
      if a ∈ tally.keys then tally.keys
      else tally.keys ++ [a] := by
  induction tally with
  | nil => rfl
  | cons entry tally ih =>
      rcases entry with ⟨key, old⟩
      rw [set]
      by_cases hKey : key = a
      · subst hKey
        rw [if_pos rfl]
        exact (if_pos List.mem_cons_self).symm
      · rw [if_neg hKey]
        change key :: (set tally a count).keys = _
        rw [ih]
        have hMem :
            a ∈ keys ((key, old) :: tally) ↔
              a ∈ keys tally := by
          refine List.mem_cons.trans (or_iff_right ?_)
          exact fun hSame => hKey hSame.symm
        split_ifs with hTail hAll hAll
        · rfl
        · exact absurd (hMem.mpr hTail) hAll
        · exact absurd (hMem.mp hAll) hTail
        · rfl

/- One more element. -/
theorem of_append_singleton
    (xs : List α)
    (a : α) :
    of (xs ++ [a]) = (of xs).set a ((of xs).get a + 1) :=
  List.foldl_append

/- The counts are those of the elements. -/
theorem get_of
    (xs : List α)
    (a : α) :
    (of xs).get a = xs.count a := by
  induction xs using List.reverseRecOn with
  | nil => rfl
  | append_singleton xs x ih =>
      rw [of_append_singleton, get_set, List.count_append]
      by_cases hSame : x = a
      · subst hSame
        rw [if_pos rfl, ih, List.count_singleton_self]
      · rw [if_neg hSame, ih, List.count_singleton,
          if_neg (by simpa using hSame), Nat.add_zero]

theorem nodup_keys_of (xs : List α) : (of xs).keys.Nodup := by
  induction xs using List.reverseRecOn with
  | nil => exact List.nodup_nil
  | append_singleton xs x ih =>
      rw [of_append_singleton, keys_set]
      split_ifs with hMem
      · exact ih
      · exact List.nodup_append.mpr
          ⟨ih, List.nodup_singleton x, fun a ha b hb hSame =>
            hMem (List.mem_singleton.mp hb ▸ hSame ▸ ha)⟩

/- The keys are the elements. -/
theorem mem_keys_of
    {xs : List α}
    {a : α} :
    a ∈ (of xs).keys ↔ a ∈ xs := by
  induction xs using List.reverseRecOn with
  | nil => rfl
  | append_singleton xs x ih =>
      rw [of_append_singleton, keys_set, List.mem_append,
        List.mem_singleton]
      split_ifs with hMem
      · rw [ih]
        refine ⟨Or.inl, fun hOr => hOr.elim id ?_⟩
        rintro rfl
        exact ih.mp hMem
      · rw [List.mem_append, List.mem_singleton, ih]

/- Another order of the elements has the same keys. -/
theorem keys_of_perm
    {xs ys : List α}
    (hPerm : xs.Perm ys) :
    (of xs).keys.Perm (of ys).keys := by
  apply (List.perm_ext_iff_of_nodup (nodup_keys_of xs)
    (nodup_keys_of ys)).mpr
  intro a
  rw [mem_keys_of, mem_keys_of]
  exact hPerm.mem_iff

end Tally

end MicaBoards

import MicaBoards.Release.VersionGuard

/-
  What a package version names over the releases of a board.
  The guard compares a release with the board's latest one,
  so its promise goes from release to release as long as each
  carries the package, and as long as the listing reaches the
  board's latest release.

  Main declarations:
    * `Succeeds`
    * `succeeds_of_previous`
    * `Guarded.succeeds_of_unbroken`
    * `versions_name_bytes`
-/

------------------------------------------------------------
-- One Release And The Next
------------------------------------------------------------

namespace MicaBoards

namespace Release

variable {sha256 : List UInt8 → String}

variable {control : List UInt8 → List Char}

/- A higher version, or the same archive again. -/
def Succeeds
    (control : List UInt8 → List Char)
    (earlier later : Archive) : Prop :=
  compareVersions (control later.bytes)
      (control earlier.bytes) = .gt ∨
    later.bytes = earlier.bytes

/- Successors of successors are successors. -/
theorem Succeeds.trans
    {first second third : Archive}
    (hFirst : Succeeds control first second)
    (hSecond : Succeeds control second third) :
    Succeeds control first third := by
  rcases hSecond with hGt | hBytes
  · left
    rcases hFirst with hGt' | hBytes'
    · exact Std.TransCmp.gt_trans hGt hGt'
    · rw [← hBytes']
      exact hGt
  · rcases hFirst with hGt' | hBytes'
    · left
      rw [hBytes]
      exact hGt'
    · right
      exact hBytes.trans hBytes'

namespace Publication

variable {publication : Publication}

/- A release has one archive of a package. -/
theorem find_of_mem_archives
    {deb : Archive}
    (hDeb : deb ∈ publication.archives) :
    publication.run.pool.find?
        (fun other => other.package = deb.package) =
      some deb := by
  rcases List.mem_filterMap.mp hDeb with
    ⟨package, _, hFind⟩
  have hPackage := List.find?_some hFind
  rw [decide_eq_true_eq] at hPackage
  rw [hPackage]
  exact hFind

/- The archive's package is one of the board's. -/
theorem package_mem_of_mem_archives
    {deb : Archive}
    (hDeb : deb ∈ publication.archives) :
    deb.package ∈ publication.run.packages := by
  rcases List.mem_filterMap.mp hDeb with
    ⟨package, hPackage, hFind⟩
  have hSame := List.find?_some hFind
  rw [decide_eq_true_eq] at hSame
  rwa [hSame]

theorem eq_of_mem_archives
    {deb other : Archive}
    (hDeb : deb ∈ publication.archives)
    (hOther : other ∈ publication.archives)
    (hPackage : deb.package = other.package) :
    deb = other := by
  have hFind := find_of_mem_archives hDeb
  rw [hPackage, find_of_mem_archives hOther] at hFind
  exact (Option.some.inj hFind).symm

/- The row of a package is that of its archive. -/
theorem find_packages
    {deb : Archive}
    (hDeb : deb ∈ publication.archives) :
    (publication.lock sha256 control).packages.find? (fun row =>
        row.package = deb.package ∧
          row.arch = publication.run.arch) =
      some
        ⟨deb.package, publication.run.arch,
          control deb.bytes, sha256 deb.bytes⟩ := by
  rw [lock, List.find?_map]
  have hOnly :
      publication.archives.find? (fun other =>
          other.package = deb.package ∧
            publication.run.arch = publication.run.arch) =
        some deb := by
    cases hFind : publication.archives.find? (fun other =>
        other.package = deb.package ∧
          publication.run.arch = publication.run.arch) with
    | none =>
        have hMissing := List.find?_eq_none.mp hFind deb hDeb
        simp at hMissing
    | some other =>
        have hPackage := List.find?_some hFind
        simp only [and_true, decide_eq_true_eq] at hPackage
        have hOther := List.mem_of_find?_eq_some hFind
        rw [eq_of_mem_archives hOther hDeb hPackage]
  have hMap := congrArg (Option.map fun deb : Archive =>
    PackageRow.mk deb.package publication.run.arch
      (control deb.bytes) (sha256 deb.bytes)) hOnly
  exact hMap

/- The layers of a release carry the inputs. -/
theorem all_layers_isSome :
    (publication.layers sha256).all
        (fun layer => layer.inputs.isSome) =
      true := by
  simp [layers]

end Publication

namespace GuardRun

variable {run : GuardRun}

/-
  A package that the previous release carries has a higher
  version, or the bytes that read at the release's digest.
-/
theorem checkPackage_of_row
    {lock : Lock}
    {layers : List Layer}
    {deb : Archive}
    {row : PackageRow}
    (hPool :
      run.pool.find? (fun other => other.package = deb.package) =
        some deb)
    (hRow :
      lock.packages.find? (fun row =>
          row.package = deb.package ∧ row.arch = run.arch) =
        some row)
    (hCheck :
      run.checkPackage sha256 control lock layers
        deb.package = true) :
    compareVersions (control deb.bytes) row.version = .gt ∨
      run.blobs row.sha = some deb.bytes := by
  unfold checkPackage at hCheck
  rw [← List.head?_filter] at hPool
  split at hCheck
  · rename_i only hOnly
    rw [hOnly, List.head?_cons] at hPool
    cases hPool
    rw [hRow] at hCheck
    simp only at hCheck
    split at hCheck
    · rename_i hGt
      exact Or.inl (vercmp_eq_some hGt)
    · cases hCheck
    · right
      split at hCheck
      · cases hCheck
      · split at hCheck
        · cases hCheck
        · rename_i published hBlob
          simp only [decide_eq_true_eq] at hCheck
          rw [hBlob, hCheck.2.2.2]
  · cases hCheck

/-
  A pool that is accepted against a release has been checked
  against its rows, if all its layers carry inputs.
-/
theorem checkPackage_of_accepted
    {previous : Listed}
    {lock : Lock}
    {reference : String}
    (hPrevious : run.previous = some previous)
    (hLock : previous.lock = some lock)
    {arch : Arch}
    (hPools : lock.pools = [(arch, reference)])
    (hInputs : ∀ layers : List Layer,
      run.manifests reference = some layers →
      layers.all (fun layer => layer.inputs.isSome) = true)
    (hAccepted : run.versionGuard sha256 control = true) :
    arch = run.arch ∧
      ∃ layers, ∀ package ∈ run.packages,
        run.checkPackage sha256 control lock layers package =
          true := by
  rw [versionGuard, hPrevious] at hAccepted
  simp only [hLock, hPools] at hAccepted
  by_cases hArch : arch = run.arch
  · refine ⟨hArch, ?_⟩
    simp only [List.find?_cons, hArch, decide_true] at hAccepted
    cases hManifest : run.manifests reference with
    | none =>
        rw [hManifest] at hAccepted
        cases hAccepted
    | some layers =>
        simp only [hManifest, hInputs layers hManifest,
          Bool.true_eq_false, if_false] at hAccepted
        exact ⟨layers, List.all_eq_true.mp hAccepted⟩
  · simp [hArch] at hAccepted

end GuardRun

/-
  What the guard has held of a package that the board's
  latest release carries.
-/
theorem succeeds_of_previous
    {earlier later : Publication}
    (hPrevious :
      later.run.previous = some (earlier.listed sha256 control))
    (hServes : Serves sha256 later.run earlier)
    (hAccepted : later.run.versionGuard sha256 control = true)
    {a b : Archive}
    (hA : a ∈ earlier.archives)
    (hB : b ∈ later.archives)
    (hPackage : a.package = b.package) :
    Succeeds control a b := by
  have hPool := Publication.find_of_mem_archives hB
  have hListed := Publication.package_mem_of_mem_archives hB
  have hRow := @Publication.find_packages sha256 control _ _ hA
  have hInputs :
      ∀ layers : List Layer,
        later.run.manifests earlier.reference = some layers →
        layers.all (fun layer => layer.inputs.isSome) = true := by
    intro layers hManifest
    rw [hServes.manifest layers hManifest]
    exact Publication.all_layers_isSome
  rcases GuardRun.checkPackage_of_accepted hPrevious rfl rfl
      hInputs hAccepted with
    ⟨hArch, layers, hChecked⟩
  rw [hPackage, hArch] at hRow
  rcases GuardRun.checkPackage_of_row hPool hRow
      (hChecked b.package hListed) with
    hGt | hBlob
  · exact Or.inl hGt
  · exact Or.inr (hServes.blobs a hA b.bytes hBlob)

------------------------------------------------------------
-- Histories
------------------------------------------------------------

/-
  Two releases of a board with none of the board between
  them.
-/
structure Consecutive
    (history : List Publication)
    (i j : Nat)
    (earlier later : Publication) : Prop where
  before : i < j
  getEarlier : history[i]? = some earlier
  getLater : history[j]? = some later
  board : earlier.run.board = later.run.board
  none : ∀ (k : Nat) (other : Publication),
    i < k → k < j →
    history[k]? = some other →
    other.run.board ≠ later.run.board

/-
  From one release of a board to another every release of the
  board carries the package, and the listing still reaches
  each when the board's next one is made.
-/
structure Unbroken
    (sha256 : List UInt8 → String)
    (control : List UInt8 → List Char)
    (history : List Publication)
    (i j : Nat)
    (board package : String) : Prop where
  carried : ∀ (k : Nat) (other : Publication),
    i ≤ k → k < j →
    history[k]? = some other →
    other.run.board = board →
    ∃ deb ∈ other.archives, deb.package = package
  listed : ∀ (k m : Nat) (earlier later : Publication),
    i ≤ k → m ≤ j →
    Consecutive history k m earlier later →
    later.run.board = board →
    earlier.listed sha256 control ∈
      newestReleases sha256 control (history.take m)

variable {history : List Publication}

/- Later releases have later stamps. -/
theorem Guarded.stamp_lt
    (hGuarded : Guarded sha256 control history)
    {i j : Nat}
    {earlier later : Publication}
    (hBefore : i < j)
    (hEarlier : history[i]? = some earlier)
    (hLater : history[j]? = some later) :
    earlier.stamp < later.stamp := by
  apply (hGuarded j later hLater).newer
  apply List.mem_of_getElem? (i := i)
  rw [List.getElem?_take_of_lt hBefore]
  exact hEarlier

/- What is listed was published before. -/
theorem exists_of_mem_newestReleases
    {listed : Listed}
    {j : Nat}
    (hListed : listed ∈
      newestReleases sha256 control (history.take j)) :
    ∃ (k : Nat) (other : Publication),
      k < j ∧ history[k]? = some other ∧
        other.listed sha256 control = listed := by
  rcases List.mem_map.mp hListed with ⟨other, hOther, rfl⟩
  have hMem := List.mem_reverse.mp (List.mem_of_mem_take hOther)
  rcases List.getElem?_of_mem hMem with ⟨k, hGet⟩
  have hBefore : k < j := by
    by_contra hLate
    rw [List.getElem?_take, if_neg hLate] at hGet
    cases hGet
  rw [List.getElem?_take_of_lt hBefore] at hGet
  exact ⟨k, other, hBefore, hGet, rfl⟩

/- The guard compares a release with the board's latest one. -/
theorem Guarded.previous_eq
    (hGuarded : Guarded sha256 control history)
    {i j : Nat}
    {earlier later : Publication}
    (hConsecutive : Consecutive history i j earlier later)
    (hListed :
      earlier.listed sha256 control ∈
        newestReleases sha256 control (history.take j)) :
    later.run.previous =
      some (earlier.listed sha256 control) := by
  have hPublishes := hGuarded j later hConsecutive.getLater
  have hNewer :=
    hGuarded.stamp_lt hConsecutive.before
      hConsecutive.getEarlier hConsecutive.getLater
  have hSelected :
      earlier.listed sha256 control ∈
        later.run.listing.filter later.run.selects := by
    rw [List.mem_filter, hPublishes.listing]
    refine ⟨hListed, ?_⟩
    simp [GuardRun.selects, Publication.listed,
      hConsecutive.board, hPublishes.release]
    omega
  cases hPrevious : later.run.previous with
  | none =>
      rw [GuardRun.previous, List.argmax_eq_none] at hPrevious
      rw [hPrevious] at hSelected
      cases hSelected
  | some latest =>
      have hLatest := List.argmax_mem hPrevious
      have hMost := List.le_of_mem_argmax hSelected hPrevious
      rw [List.mem_filter, hPublishes.listing] at hLatest
      rcases exists_of_mem_newestReleases hLatest.1 with
        ⟨k, other, hBefore, hOther, rfl⟩
      have hBoard : other.run.board = later.run.board := by
        have hSelects := hLatest.2
        simp only [GuardRun.selects, Publication.listed,
          decide_eq_true_eq] at hSelects
        exact hSelects.2.1
      have hMost' : earlier.stamp ≤ other.stamp := hMost
      -- neither after the latest one, nor before it
      have hNotAfter : ¬ i < k := fun hAfter =>
        hConsecutive.none k other hAfter hBefore hOther hBoard
      have hNotBefore : ¬ k < i := by
        intro hEarly
        have hStamp :=
          hGuarded.stamp_lt hEarly hOther
            hConsecutive.getEarlier
        omega
      have hSame : k = i := by omega
      subst hSame
      rw [hConsecutive.getEarlier] at hOther
      rw [Option.some.inj hOther]

/- From a release to the board's next one. -/
theorem Guarded.succeeds_of_consecutive
    (hGuarded : Guarded sha256 control history)
    {i j : Nat}
    {earlier later : Publication}
    (hConsecutive : Consecutive history i j earlier later)
    (hListed :
      earlier.listed sha256 control ∈
        newestReleases sha256 control (history.take j))
    {a b : Archive}
    (hA : a ∈ earlier.archives)
    (hB : b ∈ later.archives)
    (hPackage : a.package = b.package) :
    Succeeds control a b := by
  have hPublishes := hGuarded j later hConsecutive.getLater
  have hEarlier : earlier ∈ history.take j := by
    apply List.mem_of_getElem? (i := i)
    rw [List.getElem?_take_of_lt hConsecutive.before]
    exact hConsecutive.getEarlier
  exact
    succeeds_of_previous
      (hGuarded.previous_eq hConsecutive hListed)
      (hPublishes.serves earlier hEarlier) hPublishes.accepted
      hA hB hPackage

/- A board's release is there with the latest one before it. -/
theorem exists_consecutive
    {i j : Nat}
    {earlier later : Publication}
    (hBefore : i < j)
    (hEarlier : history[i]? = some earlier)
    (hLater : history[j]? = some later)
    (hBoard : earlier.run.board = later.run.board) :
    ∃ (k : Nat) (latest : Publication),
      i ≤ k ∧ Consecutive history k j latest later := by
  -- a release of the board in between is nearer to the end
  induction hGap : j - i using Nat.strong_induction_on
    generalizing i earlier with
  | _ gap ih =>
      by_cases hBetween :
          ∃ (m : Nat) (other : Publication),
            i < m ∧ m < j ∧ history[m]? = some other ∧
              other.run.board = later.run.board
      · rcases hBetween with ⟨m, other, hM, hJ, hGet, hSame⟩
        rcases ih (j - m) (by omega) hJ hGet hSame rfl with
          ⟨k, latest, hK, hConsecutive⟩
        exact ⟨k, latest, by omega, hConsecutive⟩
      · refine
          ⟨i, earlier, Nat.le_refl i, hBefore, hEarlier, hLater,
            hBoard, ?_⟩
        intro k other hI hJ hGet hSame
        exact hBetween ⟨k, other, hI, hJ, hGet, hSame⟩

/- From a release to any later one of the board. -/
theorem Guarded.succeeds_of_unbroken
    (hGuarded : Guarded sha256 control history)
    {i j : Nat}
    {earlier later : Publication}
    (hBefore : i < j)
    (hEarlier : history[i]? = some earlier)
    (hLater : history[j]? = some later)
    (hBoard : earlier.run.board = later.run.board)
    {a b : Archive}
    (hA : a ∈ earlier.archives)
    (hB : b ∈ later.archives)
    (hPackage : a.package = b.package)
    (hUnbroken :
      Unbroken sha256 control history i j later.run.board
        b.package) :
    Succeeds control a b := by
  -- on the later release: the one before it, then the step
  induction j using Nat.strong_induction_on
    generalizing later b with
  | _ j ih =>
      rcases exists_consecutive hBefore hEarlier hLater hBoard
        with ⟨k, latest, hLow, hConsecutive⟩
      rcases hUnbroken.carried k latest hLow
          hConsecutive.before hConsecutive.getEarlier
          hConsecutive.board with
        ⟨c, hC, hSame⟩
      have hListed :=
        hUnbroken.listed k j latest later hLow (Nat.le_refl j)
          hConsecutive rfl
      have hStep :=
        hGuarded.succeeds_of_consecutive hConsecutive hListed
          hC hB hSame
      rcases Nat.lt_or_eq_of_le hLow with hMore | rfl
      · have hRest :
            Unbroken sha256 control history i k latest.run.board
              c.package := by
          rw [hConsecutive.board, hSame]
          refine ⟨?_, ?_⟩
          · intro m other hI hK
            exact
              hUnbroken.carried m other hI
                (Nat.lt_trans hK hConsecutive.before)
          · intro m n before after hI hK
            exact
              hUnbroken.listed m n before after hI
                (Nat.le_trans hK
                  (Nat.le_of_lt hConsecutive.before))
        have hFirst :=
          ih k hConsecutive.before hMore
            hConsecutive.getEarlier
            (hBoard.trans hConsecutive.board.symm) hC
            (hPackage.trans hSame.symm) hRest
        exact hFirst.trans hStep
      · -- the release is the board's latest one itself
        have hLatest :=
          hEarlier.symm.trans hConsecutive.getEarlier
        cases hLatest
        rwa [Publication.eq_of_mem_archives hA hC
          (hPackage.trans hSame.symm)]

/-
  The version of a package has not become lower, and if it is
  the same, so are the bytes.
-/
def VersionKept
    (control : List UInt8 → List Char)
    (a b : Archive) : Prop :=
  compareVersions (control b.bytes) (control a.bytes) ≠ .lt ∧
    (control a.bytes = control b.bytes → a.bytes = b.bytes)

/- A successor keeps the version. -/
theorem Succeeds.versionKept
    {a b : Archive}
    (hSucceeds : Succeeds control a b) :
    VersionKept control a b := by
  have hSelf : ∀ v : List Char, compareVersions v v = .eq :=
    fun v => Std.ReflCmp.compare_self
  rcases hSucceeds with hGt | hBytes
  · refine ⟨by simp [hGt], ?_⟩
    intro hSame
    rw [hSame, hSelf] at hGt
    cases hGt
  · refine ⟨?_, fun _ => hBytes.symm⟩
    rw [hBytes, hSelf]
    simp

/- No releases yet. -/
theorem guarded_nil : Guarded sha256 control [] := by
  intro j publication hGet
  cases hGet

/- One more release. -/
theorem Guarded.append
    (hGuarded : Guarded sha256 control history)
    {publication : Publication}
    (hPublishes :
      Publishes sha256 control history publication) :
    Guarded sha256 control (history ++ [publication]) := by
  intro j other hGet
  rcases Nat.lt_trichotomy j history.length with
    hBefore | rfl | hAfter
  · rw [List.getElem?_append_left hBefore] at hGet
    rw [List.take_append_of_le_length (Nat.le_of_lt hBefore)]
    exact hGuarded j other hGet
  · rw [List.getElem?_concat_length] at hGet
    cases hGet
    rwa [List.take_left]
  · rw [List.getElem?_eq_none (by simp; omega)] at hGet
    cases hGet

/- The hashes of the archives "a" and "b". -/
def sampleSha256 (bytes : List UInt8) : String :=
  if bytes = [97] then
    "ca978112ca1bbdcafac231b39a23dc4da786eff8147c4e72b9807785afee48bb"
  else
    "3e23e8160039594a33894f6564e1b1348bbd7a0088d42c4acb73eeaed59c009d"

/- The version of the archive "c" is 1-2, of others 1-1. -/
def sampleControl (bytes : List UInt8) : List Char :=
  if bytes = [99] then ['1', '-', '2'] else ['1', '-', '1']

/- An archive of a package. -/
def sampleArchive
    (package : String)
    (bytes : List UInt8) : Archive where
  package := package
  title := package
  bytes := bytes

/-
  A release of the board uefi-x64 with one archive. It finds
  the pool of an earlier release, and the bytes of a layer.
-/
def sampleRelease
    (stamp : Nat)
    (deb : Archive)
    (reference : String)
    (history : List Publication)
    (pool : Option (String × List Layer))
    (blob : Option (List UInt8)) : Publication where
  run :=
    { board := "uefi-x64"
      arch := .amd64
      release := some stamp
      packages := [deb.package]
      inputs := fun _ => "inputs"
      pool := [deb]
      listing :=
        newestReleases sampleSha256 sampleControl history
      manifests := fun reference =>
        pool.bind fun pool =>
          if pool.1 = reference then some pool.2 else none
      blobs := fun _ => blob }
  stamp := stamp
  reference := reference

/- Its archive. -/
theorem archives_sampleRelease
    (stamp : Nat)
    (deb : Archive)
    (reference : String)
    (history : List Publication)
    (pool : Option (String × List Layer))
    (blob : Option (List UInt8)) :
    (sampleRelease stamp deb reference history pool
        blob).archives =
      [deb] := by
  simp [Publication.archives, sampleRelease]

/- A first release. -/
def firstRelease : Publication :=
  sampleRelease 202601010000 (sampleArchive "tool" [97]) "first"
    [] none none

theorem guarded_firstRelease :
    Guarded sampleSha256 sampleControl [firstRelease] :=
  guarded_nil.append
    { newer := by simp
      release := rfl
      listing := rfl
      serves := by simp
      accepted := rfl }

/- A release with the same archive. -/
def sameRelease : Publication :=
  sampleRelease 202601010100 (sampleArchive "tool" [97]) "first"
    [firstRelease]
    (some ("first", firstRelease.layers sampleSha256))
    (some [97])

theorem guarded_sameRelease :
    Guarded sampleSha256 sampleControl
      [firstRelease, sameRelease] := by
  refine
    guarded_firstRelease.append
      { newer := by
          simp [firstRelease, sameRelease, sampleRelease]
        release := rfl
        listing := rfl
        serves := ?_
        accepted := ?_ }
  · intro earlier hEarlier
    rw [List.mem_singleton.mp hEarlier]
    refine ⟨?_, ?_⟩
    · intro layers hManifest
      exact (Option.some.inj hManifest).symm
    · intro deb hDeb bytes hBlob
      rw [firstRelease, archives_sampleRelease,
        List.mem_singleton] at hDeb
      rw [hDeb]
      exact (Option.some.inj hBlob).symm
  · have hSelf :
        vercmp ['1', '-', '1'] ['1', '-', '1'] = some .eq := by
      decide +kernel
    have hPrevious :
        sameRelease.run.previous =
          some
            (firstRelease.listed sampleSha256 sampleControl) :=
      rfl
    rw [GuardRun.versionGuard, hPrevious]
    simp [Publication.listed, Publication.lock,
      Publication.archives, Publication.layers, sameRelease,
      sampleRelease, GuardRun.checkPackage, sampleArchive,
      sampleControl, firstRelease, hSelf]

/- A release with a bump. -/
def bumpedRelease : Publication :=
  sampleRelease 202601010200 (sampleArchive "tool" [99])
    "bumped" [firstRelease, sameRelease]
    (some ("first", firstRelease.layers sampleSha256)) none

theorem guarded_bumpedRelease :
    Guarded sampleSha256 sampleControl
      [firstRelease, sameRelease, bumpedRelease] := by
  refine
    guarded_sameRelease.append
      { newer := by
          simp [firstRelease, sameRelease, bumpedRelease,
            sampleRelease]
        release := rfl
        listing := rfl
        serves := ?_
        accepted := ?_ }
  · intro earlier hEarlier
    refine ⟨?_, ?_⟩
    · intro layers hManifest
      rw [List.mem_cons, List.mem_singleton] at hEarlier
      rcases hEarlier with rfl | rfl
      · exact (Option.some.inj hManifest).symm
      · exact (Option.some.inj hManifest).symm
    · intro deb hDeb bytes hBlob
      cases hBlob
  · have hHigher :
        vercmp ['1', '-', '2'] ['1', '-', '1'] = some .gt := by
      decide +kernel
    have hPrevious :
        bumpedRelease.run.previous =
          some
            (sameRelease.listed sampleSha256 sampleControl) :=
      rfl
    rw [GuardRun.versionGuard, hPrevious]
    simp [Publication.listed, Publication.lock,
      Publication.archives, Publication.layers, bumpedRelease,
      sampleRelease, GuardRun.checkPackage, sampleArchive,
      sameRelease, firstRelease, sampleControl, hHigher]

/- The package is in all three, the second time unchanged. -/
theorem unbroken_bumpedRelease :
    Unbroken sampleSha256 sampleControl
      [firstRelease, sameRelease, bumpedRelease] 0 2
      "uefi-x64" "tool" := by
  refine ⟨?_, ?_⟩
  · intro k other _ hBefore hGet _
    have hEither : k = 0 ∨ k = 1 := by omega
    rcases hEither with rfl | rfl
    · cases hGet
      refine ⟨sampleArchive "tool" [97], ?_, rfl⟩
      rw [firstRelease, archives_sampleRelease]
      exact List.mem_singleton_self _
    · cases hGet
      refine ⟨sampleArchive "tool" [97], ?_, rfl⟩
      rw [sameRelease, archives_sampleRelease]
      exact List.mem_singleton_self _
  · intro k m earlier later _ hLast hConsecutive _
    have hBefore := hConsecutive.before
    have hIn :
        earlier ∈
          [firstRelease, sameRelease, bumpedRelease].take m := by
      apply List.mem_of_getElem? (i := k)
      rw [List.getElem?_take_of_lt hBefore]
      exact hConsecutive.getEarlier
    have hFew :
        ([firstRelease, sameRelease, bumpedRelease].take
          m).reverse.length ≤ 100 := by
      rw [List.length_reverse, List.length_take]
      exact le_trans (Nat.min_le_left _ _) (by omega)
    rw [newestReleases, List.take_of_length_le hFew]
    exact List.mem_map_of_mem (List.mem_reverse.mpr hIn)

/- A release with another package instead. -/
def droppedRelease : Publication :=
  sampleRelease 202601010100 (sampleArchive "other" [97])
    "dropped" [firstRelease]
    (some ("first", firstRelease.layers sampleSha256)) none

/- A release with the package again, of other bytes. -/
def movedRelease : Publication :=
  sampleRelease 202601010200 (sampleArchive "tool" [98]) "moved"
    [firstRelease, droppedRelease]
    (some ("dropped", droppedRelease.layers sampleSha256)) none

theorem guarded_movedRelease :
    Guarded sampleSha256 sampleControl
      [firstRelease, droppedRelease, movedRelease] := by
  have hDropped :
      Guarded sampleSha256 sampleControl
        [firstRelease, droppedRelease] := by
    refine
      guarded_firstRelease.append
        { newer := by
            simp [firstRelease, droppedRelease, sampleRelease]
          release := rfl
          listing := rfl
          serves := ?_
          accepted := ?_ }
    · intro earlier hEarlier
      rw [List.mem_singleton.mp hEarlier]
      refine ⟨?_, ?_⟩
      · intro layers hManifest
        exact (Option.some.inj hManifest).symm
      · intro deb hDeb bytes hBlob
        cases hBlob
    · have hPrevious :
          droppedRelease.run.previous =
            some
            (firstRelease.listed sampleSha256 sampleControl) :=
      rfl
      rw [GuardRun.versionGuard, hPrevious]
      simp [Publication.listed, Publication.lock,
        Publication.archives, Publication.layers,
        droppedRelease, sampleRelease, GuardRun.checkPackage,
        sampleArchive, firstRelease]
  refine
    hDropped.append
      { newer := by
          simp [firstRelease, droppedRelease, movedRelease,
            sampleRelease]
        release := rfl
        listing := rfl
        serves := ?_
        accepted := ?_ }
  · intro earlier hEarlier
    refine ⟨?_, ?_⟩
    · intro layers hManifest
      rw [List.mem_cons, List.mem_singleton] at hEarlier
      rcases hEarlier with rfl | rfl
      · cases hManifest
      · exact (Option.some.inj hManifest).symm
    · intro deb hDeb bytes hBlob
      cases hBlob
  · have hPrevious :
        movedRelease.run.previous =
          some
            (droppedRelease.listed sampleSha256
              sampleControl) :=
      rfl
    rw [GuardRun.versionGuard, hPrevious]
    simp [Publication.listed, Publication.lock,
      Publication.archives, Publication.layers, movedRelease,
      sampleRelease, GuardRun.checkPackage, sampleArchive,
      droppedRelease]

end Release

end MicaBoards

import MicaBoards.Registry.Oci
import Mathlib.Data.List.Induction

/-
  What holds of the tags of a registry while runs publish to
  it. A tag resolves to manifests whose blobs are there in
  every interleaving. A run reads its tag before it sets it,
  so that a tag keeps its digest as long as no run takes it
  for absent while it holds another manifest, or while one is
  about to be put under it.

  Main declarations:
    * `OciState.Complete`
    * `OciState.Settled`
    * `TakesAbsent`
    * `published_tags_stand`
    * `repoints_of_overlap`
-/

------------------------------------------------------------
-- What A Request Does
------------------------------------------------------------

namespace MicaBoards

namespace Registry

section Tags

variable {ι : Type}

variable [DecidableEq ι]

variable (digest : Manifest → String)

variable (runs : ι → OciRun)

/- What the registry holds when a run is at a request. -/
def Pc.Ready
    (held : String → Bool)
    (blobs : List String) : Pc → Prop
| .idle => True
| .head blob todo =>
    ∃ done, blobs = done ++ blob :: todo ∧
      ∀ d ∈ done, held d = true
| .post blob todo =>
    ∃ done, blobs = done ++ blob :: todo ∧
      ∀ d ∈ done, held d = true
| .put blob todo =>
    ∃ done, blobs = done ++ blob :: todo ∧
      ∀ d ∈ done, held d = true
| .read => ∀ d ∈ blobs, held d = true
| .write => ∀ d ∈ blobs, held d = true
| .pushed => True
| .present => True
| .failed => True

/- More blobs do no harm. -/
theorem Pc.Ready.mono
    {held held' : String → Bool}
    {blobs : List String}
    {pc : Pc}
    (hHeld : ∀ d, held d = true → held' d = true)
    (hReady : pc.Ready held blobs) :
    pc.Ready held' blobs := by
  cases pc with
  | idle => trivial
  | head blob todo =>
      rcases hReady with ⟨done, hBlobs, hDone⟩
      exact ⟨done, hBlobs, fun d hd => hHeld d (hDone d hd)⟩
  | post blob todo =>
      rcases hReady with ⟨done, hBlobs, hDone⟩
      exact ⟨done, hBlobs, fun d hd => hHeld d (hDone d hd)⟩
  | put blob todo =>
      rcases hReady with ⟨done, hBlobs, hDone⟩
      exact ⟨done, hBlobs, fun d hd => hHeld d (hDone d hd)⟩
  | read => exact fun d hd => hHeld d (hReady d hd)
  | write => exact fun d hd => hHeld d (hReady d hd)
  | pushed => trivial
  | present => trivial
  | failed => trivial

/- When a blob is there, the run is ready for what follows. -/
theorem ready_nextBlob
    {held : String → Bool}
    {blobs done todo : List String}
    (hBlobs : blobs = done ++ todo)
    (hDone : ∀ d ∈ done, held d = true) :
    (nextBlob todo).Ready held blobs := by
  cases todo with
  | nil =>
      rw [List.append_nil] at hBlobs
      exact hBlobs ▸ hDone
  | cons blob todo => exact ⟨done, hBlobs, hDone⟩

theorem ready_nextBlob_cons
    {held : String → Bool}
    {blobs done todo : List String}
    {blob : String}
    (hBlobs : blobs = done ++ blob :: todo)
    (hDone : ∀ d ∈ done, held d = true)
    (hBlob : held blob = true) :
    (nextBlob todo).Ready held blobs := by
  refine
    @ready_nextBlob held blobs (done ++ [blob]) todo ?_ ?_
  · rw [hBlobs, List.append_assoc, List.singleton_append]
  · intro d hd
    rcases List.mem_append.1 hd with hd | hd
    · exact hDone d hd
    · rw [List.mem_singleton.1 hd]
      exact hBlob

theorem nextBlob_ne_write (todo : List String) :
    nextBlob todo ≠ .write := by
  cases todo <;> simp [nextBlob]

/- The run is ready for its request. -/
def OciState.ReadyAt
    (state : OciState ι)
    (i : ι) : Prop :=
  (state.pc i).Ready (state.blobs (runs i).repo)
    (runs i).manifest.blobs

/- Whether two runs are on one tag. -/
def OciRun.SameTag (run other : OciRun) : Prop :=
  run.repo = other.repo ∧ run.tag = other.tag

/-
  A run takes its tag for absent: the registry says so, or the
  token endpoint gives 404 in its place.
-/
def TakesAbsent
    (state : OciState ι)
    (action : ι × Outcome) : Prop :=
  state.pc action.1 = .read ∧
    (action.2 = .answered ∧
        state.tags (runs action.1).repo (runs action.1).tag =
          none ∨
      action.2 = .token 404)

/- What a run can do to the state. -/
inductive Move
    (state : OciState ι)
    (i : ι)
    (outcome : Outcome) : OciState ι → Prop where
/- nothing -/
| stays : Move state i outcome state
/- it goes on, not to the PUT of the manifest -/
| goes (pc : Pc)
    (hPc : pc ≠ .write)
    (hReady : state.ReadyAt runs i →
      (state.goto i pc).ReadyAt runs i) :
    Move state i outcome (state.goto i pc)
/- it takes its tag for absent -/
| absent
    (hAbsent : TakesAbsent runs state (i, outcome)) :
    Move state i outcome (state.goto i .write)
/- the registry takes a blob -/
| takesBlob (blob : String) (pc : Pc)
    (hPc : pc ≠ .write)
    (hReady : state.ReadyAt runs i →
      ((state.addBlob (runs i).repo blob).goto i pc).ReadyAt
        runs i) :
    Move state i outcome
      ((state.addBlob (runs i).repo blob).goto i pc)
/- the registry takes the manifest -/
| takesManifest (pc : Pc)
    (hPc : state.pc i = .write)
    (hNext : pc = .pushed ∨ pc = .failed) :
    Move state i outcome
      ((state.setTag (runs i).repo (runs i).tag
        (runs i).manifest).goto i pc)

omit [DecidableEq ι] in
@[simp] theorem holds_iff_blobs
    {state : OciState ι}
    {repo : String}
    {manifest : Manifest} :
    state.holds repo manifest = true ↔
      ∀ d ∈ manifest.blobs, state.blobs repo d = true := by
  simp [OciState.holds]

@[simp] theorem readyAt_goto
    {state : OciState ι}
    {i : ι}
    {pc : Pc} :
    (state.goto i pc).ReadyAt runs i ↔
      pc.Ready (state.blobs (runs i).repo)
        (runs i).manifest.blobs := by
  simp [OciState.ReadyAt, OciState.goto]

omit [DecidableEq ι] in
theorem addBlob_self
    (state : OciState ι)
    (repo blob : String) :
    (state.addBlob repo blob).blobs repo blob = true := by
  simp [OciState.addBlob]

omit [DecidableEq ι] in
theorem blobs_addBlob
    {state : OciState ι}
    {repo blob r d : String}
    (hHeld : state.blobs r d = true) :
    (state.addBlob repo blob).blobs r d = true := by
  simp [OciState.addBlob, hHeld]

/- Before an upload the run is ready for the one after it. -/
theorem readyAt_takesBlob
    {state : OciState ι}
    {i : ι}
    {blob : String}
    {todo : List String}
    (hPc : state.pc i = .put blob todo)
    (hReady : state.ReadyAt runs i) :
    ((state.addBlob (runs i).repo blob).goto i
      (nextBlob todo)).ReadyAt runs i := by
  rw [OciState.ReadyAt, hPc] at hReady
  rcases hReady with ⟨done, hBlobs, hDone⟩
  refine
    (readyAt_goto runs).2
      (ready_nextBlob_cons hBlobs
        (fun d hd => blobs_addBlob (hDone d hd))
        (addBlob_self state _ _))

/- A request does one of these. -/
theorem ociStep_move
    (state : OciState ι)
    (i : ι)
    (outcome : Outcome) :
    Move runs state i outcome
      (ociStep digest runs state (i, outcome)) := by
  have hFailed :
      Move runs state i outcome (state.goto i .failed) :=
    .goes .failed (by simp)
      fun _ => (readyAt_goto runs).2 trivial
  cases hPc : state.pc i with
  | idle =>
      simp only [ociStep, hPc]
      split
      · rename_i artifactType annotations layers hCommand
        refine .goes _ (nextBlob_ne_write _) fun _ => ?_
        refine (readyAt_goto runs).2 ?_
        refine @ready_nextBlob _ _ [] _ ?_ (by simp)
        simp [OciRun.uploads, hCommand]
      · split
        · rename_i hHolds
          refine .goes _ (by simp) fun _ => ?_
          exact (readyAt_goto runs).2 (holds_iff_blobs.1 hHolds)
        · exact .stays
  | head blob todo =>
      have hPost :
          Move runs state i outcome
            (state.goto i (.post blob todo)) := by
        refine .goes _ (by simp) fun hReady => ?_
        rw [OciState.ReadyAt, hPc] at hReady
        exact (readyAt_goto runs).2 hReady
      cases outcome with
      | answered =>
          simp only [ociStep, hPc]
          split
          · rename_i hBlob
            refine
              .goes _ (nextBlob_ne_write _) fun hReady => ?_
            rw [OciState.ReadyAt, hPc] at hReady
            rcases hReady with ⟨done, hBlobs, hDone⟩
            exact
              (readyAt_goto runs).2
                (ready_nextBlob_cons hBlobs hDone hBlob)
          · exact hPost
      | lost => simpa only [ociStep, hPc] using hPost
      | refused => simpa only [ociStep, hPc] using hPost
      | token status => simpa only [ociStep, hPc] using hPost
      | cut => simpa only [ociStep, hPc] using hFailed
  | post blob todo =>
      cases outcome with
      | answered =>
          simp only [ociStep, hPc]
          refine .goes _ (by simp) fun hReady => ?_
          rw [OciState.ReadyAt, hPc] at hReady
          exact (readyAt_goto runs).2 hReady
      | lost => simpa only [ociStep, hPc] using hFailed
      | refused => simpa only [ociStep, hPc] using hFailed
      | token status => simpa only [ociStep, hPc] using hFailed
      | cut => simpa only [ociStep, hPc] using hFailed
  | put blob todo =>
      cases outcome with
      | answered =>
          simp only [ociStep, hPc]
          exact
            .takesBlob _ _ (nextBlob_ne_write _)
              (readyAt_takesBlob runs hPc)
      | lost =>
          simp only [ociStep, hPc]
          exact
            .takesBlob _ _ (by simp)
              fun _ => (readyAt_goto runs).2 trivial
      | refused => simpa only [ociStep, hPc] using hFailed
      | token status => simpa only [ociStep, hPc] using hFailed
      | cut => simpa only [ociStep, hPc] using hFailed
  | read =>
      cases outcome with
      | answered =>
          simp only [ociStep, hPc]
          split
          · rename_i hTag
            exact .absent ⟨hPc, .inl ⟨rfl, hTag⟩⟩
          · split
            · exact
                .goes _ (by simp)
                  fun _ => (readyAt_goto runs).2 trivial
            · exact hFailed
      | lost => simpa only [ociStep, hPc] using hFailed
      | refused => simpa only [ociStep, hPc] using hFailed
      | token status =>
          simp only [ociStep, hPc]
          split
          · rename_i hStatus
            exact .absent ⟨hPc, .inr (hStatus ▸ rfl)⟩
          · exact hFailed
      | cut => simpa only [ociStep, hPc] using hFailed
  | write =>
      cases outcome with
      | answered =>
          simp only [ociStep, hPc]
          exact .takesManifest _ hPc (.inl rfl)
      | lost =>
          simp only [ociStep, hPc]
          exact .takesManifest _ hPc (.inr rfl)
      | refused => simpa only [ociStep, hPc] using hFailed
      | token status =>
          simp only [ociStep, hPc]
          split
          · exact
              .goes _ (by simp)
                fun _ => (readyAt_goto runs).2 trivial
          · exact hFailed
      | cut => simpa only [ociStep, hPc] using hFailed
  | pushed => simpa only [ociStep, hPc] using .stays
  | present => simpa only [ociStep, hPc] using .stays
  | failed => simpa only [ociStep, hPc] using .stays

------------------------------------------------------------
-- Published Manifests
------------------------------------------------------------

/- Every manifest that a tag resolves to is complete. -/
def OciState.TagsComplete (state : OciState ι) : Prop :=
  ∀ repo tag manifest,
    state.tags repo tag = some manifest →
      ∀ d ∈ manifest.blobs, state.blobs repo d = true

/- So is every one that a run is about to put. -/
structure OciState.Complete (state : OciState ι) : Prop where
  tags : state.TagsComplete
  ready : ∀ i, state.ReadyAt runs i

/- A run that goes on does not touch the others. -/
theorem readyAt_goto_of_ne
    {state : OciState ι}
    {i j : ι}
    {pc : Pc}
    (hNe : j ≠ i) :
    (state.goto i pc).ReadyAt runs j ↔
      state.ReadyAt runs j := by
  simp [OciState.ReadyAt, OciState.goto,
    Function.update_of_ne hNe]

/- A request keeps manifests complete, however it ends. -/
theorem OciState.Complete.step
    {state : OciState ι}
    (hState : state.Complete runs)
    (action : ι × Outcome) :
    (ociStep digest runs state action).Complete runs := by
  rcases action with ⟨i, outcome⟩
  have hMove := ociStep_move digest runs state i outcome
  generalize ociStep digest runs state (i, outcome) = next
    at hMove
  cases hMove with
  | stays => exact hState
  | goes pc hPc hReady =>
      refine ⟨hState.tags, fun j => ?_⟩
      by_cases hEq : j = i
      · exact hEq ▸ hReady (hState.ready i)
      · exact
          (readyAt_goto_of_ne runs hEq).2 (hState.ready j)
  | absent hAbsent =>
      refine ⟨hState.tags, fun j => ?_⟩
      by_cases hEq : j = i
      · subst hEq
        have hReady := hState.ready j
        rw [OciState.ReadyAt, hAbsent.1] at hReady
        exact (readyAt_goto runs).2 hReady
      · exact
          (readyAt_goto_of_ne runs hEq).2 (hState.ready j)
  | takesBlob blob pc hPc hReady =>
      refine ⟨?_, fun j => ?_⟩
      · intro repo tag manifest hTag d hd
        exact
          blobs_addBlob (hState.tags repo tag manifest hTag d hd)
      · by_cases hEq : j = i
        · exact hEq ▸ hReady (hState.ready i)
        · refine (readyAt_goto_of_ne runs hEq).2 ?_
          exact
            (hState.ready j).mono fun d hd => blobs_addBlob hd
  | takesManifest pc hPc hNext =>
      -- the run has seen to the blobs before its PUT
      have hBlobs := hState.ready i
      rw [OciState.ReadyAt, hPc] at hBlobs
      refine ⟨?_, fun j => ?_⟩
      · intro repo tag manifest hTag d hd
        simp only [OciState.goto, OciState.setTag] at hTag ⊢
        split at hTag
        · rename_i hSame
          rw [hSame.1]
          exact hBlobs d (Option.some.inj hTag ▸ hd)
        · exact hState.tags repo tag manifest hTag d hd
      · by_cases hEq : j = i
        · subst hEq
          refine (readyAt_goto runs).2 ?_
          rcases hNext with rfl | rfl <;> trivial
        · exact
            (readyAt_goto_of_ne runs hEq).2 (hState.ready j)

------------------------------------------------------------
-- Tags
------------------------------------------------------------

/- Tags that resolve keep the digest they resolve to. -/
def TagsStand (state later : OciState ι) : Prop :=
  ∀ repo tag manifest,
    state.tags repo tag = some manifest →
      ∃ kept, later.tags repo tag = some kept ∧
        digest kept = digest manifest

omit [DecidableEq ι] in
theorem TagsStand.refl (state : OciState ι) :
    TagsStand digest state state :=
  fun _ _ manifest hTag => ⟨manifest, hTag, rfl⟩

omit [DecidableEq ι] in
theorem TagsStand.trans
    {first second third : OciState ι}
    (hFirst : TagsStand digest first second)
    (hSecond : TagsStand digest second third) :
    TagsStand digest first third := by
  intro repo tag manifest hTag
  rcases hFirst repo tag manifest hTag with
    ⟨kept, hKept, hDigest⟩
  rcases hSecond repo tag kept hKept with
    ⟨last, hLast, hDigest'⟩
  exact ⟨last, hLast, hDigest'.trans hDigest⟩

/-
  No PUT of a manifest that is ahead changes a tag, nor do two
  of them disagree.
-/
def OciState.Settled (state : OciState ι) : Prop :=
  ∀ i, state.pc i = .write →
    (∀ manifest,
      state.tags (runs i).repo (runs i).tag = some manifest →
        digest (runs i).manifest = digest manifest) ∧
    ∀ j, state.pc j = .write →
      (runs j).SameTag (runs i) →
        digest (runs j).manifest = digest (runs i).manifest

/-
  A run does not take its tag for absent while the tag holds a
  manifest with another digest, nor while another run has the
  PUT of one under it ahead.
-/
def ReadsAlone
    (state : OciState ι)
    (action : ι × Outcome) : Prop :=
  TakesAbsent runs state action →
    (∀ manifest,
      state.tags (runs action.1).repo (runs action.1).tag =
          some manifest →
        digest (runs action.1).manifest = digest manifest) ∧
    ∀ j, state.pc j = .write →
      (runs j).SameTag (runs action.1) →
        digest (runs j).manifest =
          digest (runs action.1).manifest

/- A run that goes on to something else than its PUT. -/
theorem write_of_write_goto
    {state : OciState ι}
    {i j : ι}
    {pc : Pc}
    (hPc : pc ≠ .write)
    (hWrite : (state.goto i pc).pc j = .write) :
    j ≠ i ∧ state.pc j = .write := by
  by_cases hEq : j = i
  · subst hEq
    exact absurd (by simpa [OciState.goto] using hWrite) hPc
  · exact
      ⟨hEq, by
        simpa [OciState.goto, Function.update_of_ne hEq]
          using hWrite⟩

/- The PUTs that are ahead stay settled without new ones. -/
theorem OciState.Settled.goto
    {state : OciState ι}
    {i : ι}
    {pc : Pc}
    (hState : state.Settled digest runs)
    (hPc : pc ≠ .write) :
    (state.goto i pc).Settled digest runs := by
  intro j hj
  have hWrite := (write_of_write_goto hPc hj).2
  refine ⟨(hState j hWrite).1, fun k hk hSame => ?_⟩
  exact
    (hState j hWrite).2 k (write_of_write_goto hPc hk).2 hSame

/- A PUT that is taken is one of those that are settled. -/
theorem OciState.Settled.takesManifest
    {state : OciState ι}
    {i : ι}
    {pc : Pc}
    (hState : state.Settled digest runs)
    (hPc : state.pc i = .write)
    (hNext : pc ≠ .write) :
    ((state.setTag (runs i).repo (runs i).tag
      (runs i).manifest).goto i pc).Settled digest runs := by
  intro j hj
  have hWrite := (write_of_write_goto hNext hj).2
  refine ⟨?_, fun k hk hSame => ?_⟩
  · intro manifest hTag
    simp only [OciState.goto, OciState.setTag] at hTag
    split at hTag
    · rename_i hSame
      rw [← Option.some.inj hTag]
      exact (hState i hPc).2 j hWrite hSame
    · exact (hState j hWrite).1 manifest hTag
  · exact
      (hState j hWrite).2 k (write_of_write_goto hNext hk).2
        hSame

/- Reading alone, a run adds a PUT that agrees with others. -/
theorem OciState.Settled.absent
    {state : OciState ι}
    {i : ι}
    (hState : state.Settled digest runs)
    (hTag : ∀ manifest,
      state.tags (runs i).repo (runs i).tag = some manifest →
        digest (runs i).manifest = digest manifest)
    (hAlone : ∀ j, state.pc j = .write →
      (runs j).SameTag (runs i) →
        digest (runs j).manifest =
          digest (runs i).manifest) :
    (state.goto i .write).Settled digest runs := by
  have hAhead : ∀ j, j ≠ i →
      (state.goto i .write).pc j = .write →
        state.pc j = .write := by
    intro j hNe hj
    simpa [OciState.goto, Function.update_of_ne hNe] using hj
  intro j hj
  refine ⟨fun manifest hManifest => ?_, fun k hk hSame => ?_⟩
  · by_cases hEq : j = i
    · subst hEq
      exact hTag manifest hManifest
    · exact (hState j (hAhead j hEq hj)).1 manifest hManifest
  · by_cases hEq : j = i
    · subst hEq
      by_cases hEq' : k = j
      · rw [hEq']
      · exact hAlone k (hAhead k hEq' hk) hSame
    · by_cases hEq' : k = i
      · subst hEq'
        exact
          (hAlone j (hAhead j hEq hj)
            ⟨hSame.1.symm, hSame.2.symm⟩).symm
      · exact
          (hState j (hAhead j hEq hj)).2 k (hAhead k hEq' hk)
            hSame

/- A request keeps both, if a run that reads reads alone. -/
theorem OciState.Settled.step
    {state : OciState ι}
    {action : ι × Outcome}
    (hState : state.Settled digest runs)
    (hAlone : ReadsAlone digest runs state action) :
    (ociStep digest runs state action).Settled digest runs ∧
      TagsStand digest state
        (ociStep digest runs state action) := by
  rcases action with ⟨i, outcome⟩
  have hMove := ociStep_move digest runs state i outcome
  generalize ociStep digest runs state (i, outcome) = next
    at hMove
  have hRefl := TagsStand.refl digest state
  cases hMove with
  | stays => exact ⟨hState, hRefl⟩
  | goes pc hPc hReady => exact ⟨hState.goto _ _ hPc, hRefl⟩
  | absent hAbsent =>
      have hBoth := hAlone hAbsent
      exact ⟨hState.absent _ _ hBoth.1 hBoth.2, hRefl⟩
  | takesBlob blob pc hPc hReady =>
      exact ⟨hState.goto _ _ hPc, hRefl⟩
  | takesManifest pc hPc hNext =>
      have hNe : pc ≠ .write := by
        rcases hNext with rfl | rfl <;> simp
      refine ⟨hState.takesManifest _ _ hPc hNe, ?_⟩
      intro repo tag manifest hTag
      by_cases hSame :
          repo = (runs i).repo ∧ tag = (runs i).tag
      · refine ⟨(runs i).manifest, ?_, ?_⟩
        · simp [OciState.goto, OciState.setTag, hSame]
        · rw [hSame.1, hSame.2] at hTag
          exact (hState i hPc).1 manifest hTag
      · refine ⟨manifest, ?_, rfl⟩
        simpa [OciState.goto, OciState.setTag, hSame] using hTag

------------------------------------------------------------
-- Runs Of The System
------------------------------------------------------------

/- What publishing promises, before and after requests. -/
def PublishCorrect
    (state : OciState ι)
    (before after : List (ι × Outcome)) : Prop :=
  TagsStand digest
      (Schedule.run (ociStep digest runs) state before)
      (Schedule.run (ociStep digest runs) state
        (before ++ after)) ∧
    (Schedule.run (ociStep digest runs) state
      (before ++ after)).TagsComplete

omit [DecidableEq ι] in
theorem complete_initialState
    {blobs : String → String → Bool}
    {tags : String → String → Option Manifest}
    (hHeld :
      (initialState (ι := ι) blobs tags).TagsComplete) :
    (initialState (ι := ι) blobs tags).Complete runs :=
  ⟨hHeld, fun _ => trivial⟩

/- Manifests are complete after every schedule. -/
theorem complete_run
    {state : OciState ι}
    (hState : state.Complete runs)
    (schedule : List (ι × Outcome)) :
    (Schedule.run (ociStep digest runs) state
      schedule).Complete runs :=
  (Schedule.along_true state schedule).invariant
    (fun _ action hComplete _ =>
      hComplete.step digest runs action)
    hState

/- Tags are settled while runs read alone. -/
theorem settled_run
    {blobs : String → String → Bool}
    {tags : String → String → Option Manifest}
    {schedule : List (ι × Outcome)}
    (hAlone : Schedule.Along (ociStep digest runs)
      (ReadsAlone digest runs) (initialState blobs tags)
      schedule) :
    (Schedule.run (ociStep digest runs)
      (initialState blobs tags) schedule).Settled
        digest runs := by
  refine
    hAlone.invariant
      (fun _ _ hSettled hAction =>
        (hSettled.step digest runs hAction).1) ?_
  intro i hi
  exact absurd hi (by simp [initialState])

/- A run that takes its tag for absent has its PUT ahead. -/
theorem ociStep_of_takesAbsent
    {state : OciState ι}
    {action : ι × Outcome}
    (hAbsent : TakesAbsent runs state action) :
    ociStep digest runs state action =
      state.goto action.1 .write := by
  rcases action with ⟨i, outcome⟩
  rcases hAbsent with ⟨hRead, ⟨hOutcome, hTag⟩ | hOutcome⟩
  · simp only at hRead hOutcome hTag
    simp [ociStep, hRead, hOutcome, hTag]
  · simp only at hRead hOutcome
    simp [ociStep, hRead, hOutcome]

/- A PUT that is answered sets the tag. -/
theorem ociStep_of_write
    {state : OciState ι}
    {i : ι}
    (hWrite : state.pc i = .write) :
    ociStep digest runs state (i, .answered) =
      (state.setTag (runs i).repo (runs i).tag
        (runs i).manifest).goto i .pushed := by
  simp [ociStep, hWrite]

/-
  A run that does not read alone: if the PUTs are answered,
  the tag resolves first to the one manifest, then to the
  other.
-/
theorem repoints_of_overlap
    {state : OciState ι}
    {action : ι × Outcome}
    (hOverlap : ¬ ReadsAlone digest runs state action) :
    ∃ before after,
      ¬ TagsStand digest
        (Schedule.run (ociStep digest runs) state before)
        (Schedule.run (ociStep digest runs) state
          (before ++ after)) := by
  simp only [ReadsAlone, Classical.not_imp] at hOverlap
  rcases hOverlap with ⟨hAbsent, hBoth⟩
  have hFirst := ociStep_of_takesAbsent digest runs hAbsent
  have hRead := hAbsent.1
  rcases action with ⟨i, outcome⟩
  simp only at hFirst hRead hBoth
  have hPut :
      (state.goto i .write).pc i = .write := by
    simp [OciState.goto]
  by_cases hHeld : ∀ manifest,
      state.tags (runs i).repo (runs i).tag = some manifest →
        digest (runs i).manifest = digest manifest
  · -- another run has its PUT ahead, and it comes first
    have hOther := (not_and.1 hBoth) hHeld
    simp only [not_forall] at hOther
    rcases hOther with ⟨j, hWrite, hSame, hDigest⟩
    have hNe : j ≠ i := by
      intro hEq
      rw [hEq, hRead] at hWrite
      exact absurd hWrite (by simp)
    have hWrite' : (state.goto i .write).pc j = .write := by
      simp [OciState.goto, Function.update_of_ne hNe, hWrite]
    have hSecond := ociStep_of_write digest runs hWrite'
    refine
      ⟨[(i, outcome), (j, .answered)], [(i, .answered)],
        fun hStand => ?_⟩
    simp only [List.cons_append, List.nil_append,
      Schedule.run_cons, Schedule.run_nil, hFirst,
      hSecond] at hStand
    rcases
        hStand (runs j).repo (runs j).tag (runs j).manifest
          (by simp [OciState.goto, OciState.setTag]) with
      ⟨kept, hKept, hEq⟩
    have hLast : kept = (runs i).manifest := by
      simpa [ociStep, OciState.goto, OciState.setTag,
        Function.update_of_ne hNe.symm, hSame.1, hSame.2,
        eq_comm] using hKept
    exact hDigest (hEq.symm.trans (hLast ▸ rfl))
  · -- the tag holds another manifest already
    simp only [not_forall] at hHeld
    rcases hHeld with ⟨manifest, hTag, hDigest⟩
    refine
      ⟨[], [(i, outcome), (i, .answered)], fun hStand => ?_⟩
    simp only [List.nil_append, Schedule.run_cons,
      Schedule.run_nil, hFirst,
      ociStep_of_write digest runs hPut] at hStand
    rcases hStand _ _ manifest hTag with ⟨kept, hKept, hEq⟩
    have hLast : kept = (runs i).manifest := by
      simpa [OciState.goto, OciState.setTag, eq_comm]
        using hKept
    exact hDigest (hLast ▸ hEq)

/-
  Published manifests are complete, and tags that resolve keep
  their digests, in every run of the system in which runs read
  alone. If some run does not, tags may be re-pointed.
-/
theorem published_tags_stand
    (blobs : String → String → Bool)
    (tags : String → String → Option Manifest)
    (hHeld :
      (initialState (ι := ι) blobs tags).TagsComplete) :
    (∀ before after,
      Schedule.Along (ociStep digest runs)
          (ReadsAlone digest runs) (initialState blobs tags)
          (before ++ after) →
        PublishCorrect digest runs (initialState blobs tags)
          before after) ∧
    ((∀ before after,
        PublishCorrect digest runs (initialState blobs tags)
          before after) →
      ∀ schedule,
        Schedule.Along (ociStep digest runs)
          (ReadsAlone digest runs) (initialState blobs tags)
          schedule) := by
  refine ⟨?_, ?_⟩
  · intro before after hAlong
    rw [Schedule.along_append] at hAlong
    refine ⟨?_, ?_⟩
    · rw [Schedule.run_append]
      exact
        hAlong.2.leads (TagsStand.refl digest)
          (fun _ _ _ => TagsStand.trans digest)
          (fun _ _ hSettled hAction =>
            hSettled.step digest runs hAction)
          (settled_run digest runs hAlong.1)
    · exact
        (complete_run digest runs
          (complete_initialState runs hHeld) _).tags
  · intro hCorrect schedule
    induction schedule using List.reverseRecOn with
    | nil => trivial
    | append_singleton schedule action ih =>
        refine
          Schedule.along_append.2 ⟨ih, ?_, trivial⟩
        by_contra hOverlap
        rcases repoints_of_overlap digest runs hOverlap with
          ⟨before, after, hRepoints⟩
        apply hRepoints
        have hStand := (hCorrect (schedule ++ before) after).1
        simpa [Schedule.run_append] using hStand

end Tags

------------------------------------------------------------
-- Two Publishers
------------------------------------------------------------

/- Manifests that differ in their annotations differ. -/
def annotationsDigest (manifest : Manifest) : String :=
  "sha256:" ++ manifest.annotations

/- `oci_publish` of a board, with a build's annotations. -/
def boardRun (annotations : String) : OciRun where
  repo := "owner/mica-boards"
  tag := "board.x.20260101-0000"
  command := .publish "application/vnd.mica.board" annotations []

/- Two jobs publish what they have built. -/
def twoBuilds (second : Bool) : OciRun :=
  boardRun (if second then "b" else "a")

/- The empty config is there, and tags are absent. -/
def emptyRegistry : OciState Bool :=
  initialState (fun _ _ => true) (fun _ _ => none)

/- Both read the tag, and then the first puts its manifest. -/
def bothRead : List (Bool × Outcome) :=
  [(false, .answered), (true, .answered),
    (false, .answered), (true, .answered),
    (false, .answered), (true, .answered),
    (false, .answered)]

/- One job publishes before the other reads the tag. -/
def inTurn : List (Bool × Outcome) :=
  [(false, .answered), (false, .answered),
    (false, .answered), (false, .answered)]

theorem published_tags_stand_inTurn :
    emptyRegistry.TagsComplete ∧
      PublishCorrect annotationsDigest twoBuilds emptyRegistry
        inTurn
        [(true, .answered), (true, .answered),
          (true, .answered)] := by
  have hHeld : emptyRegistry.TagsComplete := by
    intro repo tag manifest hTag
    exact absurd hTag (by simp [emptyRegistry, initialState])
  refine ⟨hHeld, ?_⟩
  refine
    (published_tags_stand annotationsDigest twoBuilds
      (fun _ _ => true) (fun _ _ => none) hHeld).1 _ _ ?_
  simp [inTurn, Schedule.Along, ReadsAlone, TakesAbsent,
    ociStep, initialState, OciState.goto, OciState.setTag,
    twoBuilds, boardRun, OciRun.uploads, OciRun.manifest,
    Manifest.blobs, nextBlob]

/- With both GETs before both PUTs the tag is re-pointed. -/
theorem not_publishCorrect_twoBuilds :
    ¬ ∀ before after,
      PublishCorrect annotationsDigest twoBuilds emptyRegistry
        before after := by
  intro hCorrect
  have hStand := (hCorrect bothRead [(true, .answered)]).1
  have hFirst :
      (Schedule.run (ociStep annotationsDigest twoBuilds)
        emptyRegistry bothRead).tags "owner/mica-boards"
          "board.x.20260101-0000" =
        some (twoBuilds false).manifest := by
    simp [bothRead, ociStep, emptyRegistry, initialState,
      OciState.goto, OciState.setTag, twoBuilds, boardRun,
      OciRun.uploads, OciRun.manifest, Manifest.blobs,
      nextBlob]
  have hLast :
      (Schedule.run (ociStep annotationsDigest twoBuilds)
        emptyRegistry (bothRead ++ [(true, .answered)])).tags
          "owner/mica-boards" "board.x.20260101-0000" =
        some (twoBuilds true).manifest := by
    simp [bothRead, ociStep, emptyRegistry, initialState,
      OciState.goto, OciState.setTag, twoBuilds, boardRun,
      OciRun.uploads, OciRun.manifest, Manifest.blobs,
      nextBlob]
  rcases hStand _ _ _ hFirst with ⟨kept, hKept, hDigest⟩
  rw [hLast] at hKept
  rw [← Option.some.inj hKept] at hDigest
  exact absurd hDigest (by decide)

end Registry

end MicaBoards

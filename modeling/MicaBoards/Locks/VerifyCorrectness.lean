import MicaBoards.Locks.PinsCorrectness
import MicaBoards.Locks.Verify

/-
  What `verify` accepts, and the pins that are as they should
  be.

  `verify` takes neither the address of the asset nor the name
  of the lock from the scope of a pin, and drops NUL bytes of
  the asset.

  Main declarations:
    * `VerifyCorrect`
    * `SedVerified`, `LooselyVerified`
    * `verifyPins_eq_ok_iff`
    * `VerifyHolds`
    * `verifyCorrect_iff`
-/

------------------------------------------------------------
-- Values of a Pin
------------------------------------------------------------

namespace MicaBoards

namespace Locks

open Text

variable {iconv : Iconv}

theorem orDie_eq_ok_iff
    {condition : Bool}
    {error : LocksError} :
    orDie condition error = .ok () ↔ condition = true := by
  cases condition <;> simp [orDie]

/- A line has the prefix of its own key only. -/
theorem withoutPrefix_renderField
    {key : Bytes}
    {field : Bytes × Bytes}
    (hKey : equals ∉ key)
    (hField : equals ∉ field.1) :
    withoutPrefix (key ++ [equals]) (renderField field) =
      if field.1 = key then some field.2 else none := by
  unfold withoutPrefix renderField
  split_ifs with hPrefix hSame hSame
  · rw [hSame]
    simp
  · rw [List.isPrefixOf_iff_prefix] at hPrefix
    rcases hPrefix with ⟨rest, hRest⟩
    rw [List.append_assoc, List.singleton_append] at hRest
    have hFront := congrArg (beforeFirst equals) hRest
    rw [beforeFirst_append hKey, beforeFirst_append hField]
      at hFront
    exact absurd hFront.symm hSame
  · apply absurd _ hPrefix
    rw [List.isPrefixOf_iff_prefix, hSame]
    exact ⟨field.2, by simp⟩
  · rfl

/- Of fields with each key once, one has this key. -/
theorem filterMap_field
    {fields : List (Bytes × Bytes)}
    {key value : Bytes}
    (hNodup : (fields.map Prod.fst).Nodup)
    (hMem : (key, value) ∈ fields) :
    fields.filterMap
        (fun field =>
          if field.1 = key then some field.2 else none) =
      [value] := by
  induction fields with
  | nil => exact absurd hMem List.not_mem_nil
  | cons field fields ih =>
      rw [List.map_cons, List.nodup_cons] at hNodup
      rcases List.mem_cons.mp hMem with rfl | hMem
      · have hNone :
            ∀ other ∈ fields,
              (if other.1 = key then some other.2 else none) =
                none := by
          intro other hOther
          apply if_neg
          intro hSame
          have hIn : other.1 ∈ fields.map Prod.fst :=
            List.mem_map_of_mem hOther
          rw [hSame] at hIn
          exact hNodup.1 hIn
        rw [List.filterMap_cons_some (by rw [if_pos rfl]),
          List.filterMap_eq_nil_iff.mpr hNone]
      · have hOther : ¬ field.1 = key := by
          intro hSame
          have hIn : (key, value).1 ∈ fields.map Prod.fst :=
            List.mem_map_of_mem hMem
          rw [hSame] at hNodup
          exact hNodup.1 hIn
        rw [List.filterMap_cons_none (by rw [if_neg hOther])]
        exact ih hNodup.2 hMem

/- The line of a key holds nothing but NULs behind a NUL. -/
def PlainKey (key text : Bytes) : Prop :=
  ∀ line ∈ textLines text,
    (key ++ [equals]).isPrefixOf line = true →
      dropNuls line = cutAtNul line

/- What `sed` leaves of a line, up to its NUL bytes. -/
theorem withoutPrefix_cutAtNul
    {start line : Bytes}
    (hStart : 0 ∉ start)
    (hPlain : start.isPrefixOf line = true →
      dropNuls line = cutAtNul line) :
    withoutPrefix start (cutAtNul line) =
      (withoutPrefix start line).map dropNuls := by
  unfold withoutPrefix
  by_cases hPrefix : start.isPrefixOf line = true
  · have hSame := hPlain hPrefix
    rcases List.isPrefixOf_iff_prefix.mp hPrefix with
      ⟨rest, rfl⟩
    have hCut :
        cutAtNul (start ++ rest) = start ++ dropNuls rest := by
      rw [← hSame, dropNuls_append, dropNuls_eq_self hStart]
    rw [if_pos hPrefix, hCut, if_pos (by simp),
      List.drop_left, Option.map_some, List.drop_left]
  · have hCut : ¬ start.isPrefixOf (cutAtNul line) = true := by
      intro hFront
      apply hPrefix
      rw [List.isPrefixOf_iff_prefix] at hFront ⊢
      exact hFront.trans (List.takeWhile_prefix _)
    rw [if_neg hPrefix, if_neg hCut]
    rfl

/- A key of a pin is in one of its lines. -/
theorem filterMap_lines
    {pin : Pin}
    {key value : Bytes}
    (hMem : (key, value) ∈ pin.fields) :
    pin.lines.filterMap (withoutPrefix (key ++ [equals])) =
      [value] := by
  have hKey := pin.equals_notMem_fields (key, value) hMem
  have hHeader :
      withoutPrefix (key ++ [equals]) pinHeader = none := by
    unfold withoutPrefix
    apply if_neg
    rw [List.isPrefixOf_iff_prefix]
    intro hPrefix
    have hEquals : equals ∈ pinHeader :=
      hPrefix.subset (by simp)
    exact absurd hEquals (by decide)
  unfold Pin.lines
  rw [List.filterMap_cons_none hHeader, List.filterMap_map,
    ← filterMap_field pin.nodup_fields hMem]
  apply List.filterMap_congr
  intro field hField
  exact withoutPrefix_renderField hKey.1
    (pin.equals_notMem_fields field hField).1

/- `sed` finds the value of a key in plain. -/
theorem sedValue_of_pinFile
    {text : Bytes}
    {pin : Pin}
    {key value : Bytes}
    (hFile : LoosePinFile iconv text pin)
    (hMem : (key, value) ∈ pin.fields)
    (hNul : 0 ∉ key)
    (hValue : value ≠ [])
    (hPlain : PlainKey key text) :
    sedValue key text = value := by
  have hStart : 0 ∉ key ++ [equals] := by
    intro hIn
    rcases List.mem_append.mp hIn with hIn | hIn
    · exact hNul hIn
    · exact absurd hIn (by decide)
  -- cut at NUL bytes, the lines are those of the pin
  have hFound :
      ((textLines text).filterMap
          (withoutPrefix (key ++ [equals]))).map dropNuls =
        [value] := by
    rw [← filterMap_lines hMem, ← hFile.lines, mapfile,
      List.filterMap_map, List.map_filterMap]
    apply List.filterMap_congr
    intro line hLine
    exact
      (withoutPrefix_cutAtNul hStart
        (hPlain line hLine)).symm
  rw [List.map_eq_singleton_iff] at hFound
  rcases hFound with ⟨found, hFound, hDrop⟩
  have hLine : ∃ line ∈ textLines text,
      withoutPrefix (key ++ [equals]) line = some found := by
    rw [← List.mem_filterMap, hFound]
    exact List.mem_singleton_self _
  rcases hLine with ⟨line, hLine, hPrefix⟩
  have hLf : lf ∉ found := by
    intro hIn
    unfold withoutPrefix at hPrefix
    split_ifs at hPrefix
    rw [← Option.some.inj hPrefix] at hIn
    exact (mem_textLines hLine).1
      ((List.drop_sublist _ _).subset hIn)
  have hLf' : lf ∉ value := by
    rw [← hDrop]
    exact fun hIn => hLf (List.mem_filter.mp hIn).1
  unfold sedValue
  rw [hFound]
  rw [captured_unlines_eq_iff (by simpa using hLf) hLf' hValue]
  exact ⟨found, [], rfl, hDrop, by simp⟩

------------------------------------------------------------
-- Listings
------------------------------------------------------------

/- A hash and a name, as `sha256sum` puts them in a line. -/
def sumsLine (hash name : Bytes) : Bytes :=
  hash ++ space :: space :: name

/- One line that names this file, and empty lines behind it. -/
def Lists (sums name hash : Bytes) : Prop :=
  ∃ rest : List Bytes,
    textLines sums = sumsLine hash name :: rest ∧
      ∀ line ∈ rest, line = []

/- The same but for NUL bytes behind the hash. -/
def ListsLoosely (sums name hash : Bytes) : Prop :=
  ∃ (written : Bytes) (rest : List Bytes),
    textLines sums = sumsLine hash written :: rest ∧
      dropNuls written = name ∧
      ∀ line ∈ rest, dropNuls line = []

theorem isSha_iff
    {s : Bytes} :
    isSha s = true ↔
      s.length = 64 ∧ ∀ b ∈ s, isHex b = true := by
  unfold isSha exactly
  rw [Bool.and_eq_true, decide_eq_true_eq, List.all_eq_true]

theorem ne_of_isHex
    (b : UInt8) :
    isHex b = true → b ≠ 0 ∧ b ≠ space ∧ b ≠ dot ∧ b ≠ lf := by
  revert b
  exact forall_byte (by decide +kernel)

/- What `stripDigest` leaves of a line. -/
theorem stripDigest_cases (line : Bytes) :
    (∃ hash written : Bytes, isSha hash = true ∧
      line = sumsLine hash written ∧
      stripDigest line = written) ∨
      stripDigest line = line := by
  unfold stripDigest
  split_ifs with hForm
  · left
    rw [Bool.and_eq_true, decide_eq_true_eq] at hForm
    refine ⟨line.take 64, line.drop 66, hForm.1, ?_, rfl⟩
    have hBehind :
        line.drop 64 = space :: space :: line.drop 66 := by
      have hTake := List.take_append_drop 2 (line.drop 64)
      rw [hForm.2, List.drop_drop] at hTake
      exact hTake.symm
    unfold sumsLine
    rw [← hBehind, List.take_append_drop]
  · right
    rfl

theorem stripDigest_sumsLine
    {hash written : Bytes}
    (hHash : isSha hash = true) :
    stripDigest (sumsLine hash written) = written := by
  have hLength := (isSha_iff.mp hHash).1
  have hBehind :
      (sumsLine hash written).drop 64 =
        space :: space :: written :=
    List.drop_left' hLength
  have hWritten : (sumsLine hash written).drop 66 = written := by
    rw [show 66 = 64 + 2 from rfl, ← List.drop_drop, hBehind]
    rfl
  have hFront : (sumsLine hash written).take 64 = hash :=
    List.take_left' hLength
  unfold stripDigest
  rw [hFront, hBehind, hWritten, hHash]
  rfl

theorem beforeFirst_sumsLine
    {hash written : Bytes}
    (hHash : isSha hash = true) :
    beforeFirst space (sumsLine hash written) = hash := by
  apply beforeFirst_append
  intro hMem
  exact (ne_of_isHex space ((isSha_iff.mp hHash).2 space hMem)).2.1
    rfl

theorem dropNuls_eq_nil_iff
    {bytes : Bytes} :
    dropNuls bytes = [] ↔ ∀ b ∈ bytes, b = 0 := by
  unfold dropNuls
  rw [List.filter_eq_nil_iff]
  simp

theorem dropNuls_of_isSha
    {hash : Bytes}
    (hHash : isSha hash = true) :
    dropNuls hash = hash := by
  apply dropNuls_eq_self
  intro hMem
  exact (ne_of_isHex 0 ((isSha_iff.mp hHash).2 0 hMem)).1 rfl

theorem ne_nil_of_isSha
    {hash : Bytes}
    (hHash : isSha hash = true) :
    hash ≠ [] := by
  rintro rfl
  exact Bool.false_ne_true hHash

theorem mem_of_mem_stripDigest
    {line : Bytes}
    {b : UInt8}
    (hMem : b ∈ stripDigest line) :
    b ∈ line := by
  unfold stripDigest at hMem
  split_ifs at hMem
  · exact (List.drop_sublist _ _).subset hMem
  · exact hMem

/-
  What `verify` reads of an asset is one name and one hash
  just when the asset lists them but for NUL bytes.
-/
theorem listed_iff
    {sums name hash : Bytes}
    (hHash : isSha hash = true)
    (hDot : dot ∈ name)
    (hSpace : space ∉ name)
    (hLf : lf ∉ name) :
    (listedNames sums = name ∧ listedHashes sums = hash) ↔
      ListsLoosely sums name hash := by
  have hHashLf : lf ∉ hash := fun hMem =>
    (ne_of_isHex lf ((isSha_iff.mp hHash).2 lf hMem)).2.2.2 rfl
  have hName : name ≠ [] := by
    rintro rfl
    exact List.not_mem_nil hDot
  have hNames :
      ∀ line ∈ (textLines sums).map stripDigest, lf ∉ line := by
    intro line hLine hMem
    rcases List.mem_map.mp hLine with ⟨raw, hRaw, rfl⟩
    exact (mem_textLines hRaw).1 (mem_of_mem_stripDigest hMem)
  have hHashes :
      ∀ line ∈ (textLines sums).map (beforeFirst space),
        lf ∉ line := by
    intro line hLine hMem
    rcases List.mem_map.mp hLine with ⟨raw, hRaw, rfl⟩
    exact (mem_textLines hRaw).1
      ((List.takeWhile_sublist _).subset hMem)
  unfold listedNames listedHashes
  rw [captured_unlines_eq_iff hNames hLf hName,
    captured_unlines_eq_iff hHashes hHashLf
      (ne_nil_of_isSha hHash)]
  constructor
  · rintro ⟨⟨first, rest, hStrip, hFirst, hRest⟩,
      ⟨first', rest', hCut, hFirst', hRest'⟩⟩
    rw [List.map_eq_cons_iff] at hStrip
    rcases hStrip with ⟨line, lines, hLines, rfl, rfl⟩
    rw [hLines, List.map_cons] at hCut
    injection hCut with hHead hTail
    rw [← hHead] at hFirst'
    rw [← hTail] at hRest'
    have hEmpty : ∀ raw ∈ lines, dropNuls raw = [] := by
      intro raw hRaw
      have hStripped := hRest _ (List.mem_map_of_mem hRaw)
      rcases stripDigest_cases raw with
        ⟨hash', written, hHash', rfl, _⟩ | hSame
      · have hCut := hRest' _ (List.mem_map_of_mem hRaw)
        rw [beforeFirst_sumsLine hHash',
          dropNuls_of_isSha hHash'] at hCut
        exact absurd hCut (ne_nil_of_isSha hHash')
      · rwa [hSame] at hStripped
    rcases stripDigest_cases line with
      ⟨hash', written, hHash', rfl, hWritten⟩ | hSame
    · rw [beforeFirst_sumsLine hHash',
        dropNuls_of_isSha hHash'] at hFirst'
      rw [hWritten] at hFirst
      rw [hFirst'] at hLines
      exact ⟨written, lines, hLines, hFirst, hEmpty⟩
    · -- Without a hash in front, the line is both.
      rw [hSame] at hFirst
      have hNone : space ∉ line := by
        intro hMem
        apply hSpace
        rw [← hFirst]
        exact List.mem_filter.mpr ⟨hMem, by decide⟩
      rw [beforeFirst_of_notMem hNone, hFirst] at hFirst'
      rw [hFirst'] at hDot
      exact absurd rfl
        (ne_of_isHex dot ((isSha_iff.mp hHash).2 dot hDot)).2.2.1
  · rintro ⟨written, rest, hLines, hWritten, hRest⟩
    have hZero : ∀ line ∈ rest, ∀ b ∈ line, b = 0 :=
      fun line hLine => dropNuls_eq_nil_iff.mp (hRest line hLine)
    rw [hLines, List.map_cons, List.map_cons,
      stripDigest_sumsLine hHash, beforeFirst_sumsLine hHash]
    refine ⟨⟨_, _, rfl, hWritten, ?_⟩,
      ⟨_, _, rfl, dropNuls_of_isSha hHash, ?_⟩⟩
    · intro line hLine
      rcases List.mem_map.mp hLine with ⟨raw, hRaw, rfl⟩
      rw [dropNuls_eq_nil_iff]
      intro b hb
      exact hZero raw hRaw b (mem_of_mem_stripDigest hb)
    · intro line hLine
      rcases List.mem_map.mp hLine with ⟨raw, hRaw, rfl⟩
      rw [dropNuls_eq_nil_iff]
      intro b hb
      exact hZero raw hRaw b
        ((List.takeWhile_sublist _).subset hb)

/- The asset lists it, but for NUL bytes. -/
theorem lists_iff
    {sums name hash : Bytes}
    (hHash : isSha hash = true)
    (hName : 0 ∉ name) :
    Lists sums name hash ↔
      ListsLoosely sums name hash ∧ 0 ∉ sums := by
  constructor
  · rintro ⟨rest, hLines, hRest⟩
    refine ⟨⟨name, rest, hLines, dropNuls_eq_self hName, ?_⟩, ?_⟩
    · intro line hLine
      rw [hRest line hLine]
      rfl
    · intro hMem
      rcases exists_mem_textLines hMem (by decide) with
        ⟨line, hLine, hIn⟩
      rw [hLines] at hLine
      rcases List.mem_cons.mp hLine with rfl | hLine
      · unfold sumsLine at hIn
        rcases List.mem_append.mp hIn with hIn | hIn
        · exact (ne_of_isHex 0
            ((isSha_iff.mp hHash).2 0 hIn)).1 rfl
        · rcases List.mem_cons.mp hIn with hEq | hIn
          · exact absurd hEq (by decide)
          · rcases List.mem_cons.mp hIn with hEq | hIn
            · exact absurd hEq (by decide)
            · exact hName hIn
      · rw [hRest line hLine] at hIn
        exact List.not_mem_nil hIn
  · rintro ⟨⟨written, rest, hLines, hWritten, hRest⟩, hNul⟩
    have hKeep : ∀ line ∈ textLines sums, 0 ∉ line :=
      fun line hLine hMem => hNul ((mem_textLines hLine).2 0 hMem)
    rw [hLines, List.forall_mem_cons] at hKeep
    have hSame : written = name := by
      rw [← hWritten]
      symm
      apply dropNuls_eq_self
      intro hMem
      apply hKeep.1
      unfold sumsLine
      simp [hMem]
    refine ⟨rest, ?_, ?_⟩
    · rw [hLines, hSame]
    · intro line hLine
      rw [← hRest line hLine]
      exact (dropNuls_eq_self (hKeep.2 line hLine)).symm

------------------------------------------------------------
-- Verified Pins
------------------------------------------------------------

/- The release tag: the scope, where there is one, in front. -/
def Pin.tag (pin : Pin) : Bytes :=
  pin.scope.elim pin.release fun scope =>
    scope ++ dot :: pin.release

/- A pin that the directory holds. -/
def HoldsPin
    (iconv : Iconv)
    (dir : LocksDir)
    (pin : Pin) : Prop :=
  ∃ file ∈ dir.pinFiles, ∃ text,
    dir.pins.read file = some text ∧ LoosePinFile iconv text pin

/-
  The asset of the pin's release has the pinned hash, and
  lists the pin's lock with the hash of that file.
-/
def PinVerified
    (host : Host)
    (dir : LocksDir)
    (pin : Pin) : Prop :=
  ∃ sums lock : Bytes,
    host.release pin.repository pin.tag = some sums ∧
      host.sha256 sums = pin.sums ∧
      dir.files.read (pin.name ++ lockSuffix) = some lock ∧
      Lists sums (pin.repository ++ lockSuffix)
        (host.sha256 lock)

/- What `verify` asks of a pin, whatever its scope. -/
def LooselyVerified
    (host : Host)
    (dir : LocksDir)
    (pin : Pin) : Prop :=
  ∃ sums lock : Bytes,
    host.release pin.repository pin.release = some sums ∧
      host.sha256 sums = pin.sums ∧
      dir.files.read (pin.repository ++ lockSuffix) =
        some lock ∧
      ListsLoosely sums (pin.repository ++ lockSuffix)
        (host.sha256 lock)

/- The asset that `verify` reads for a pin is text. -/
def TextAsset (host : Host) (pin : Pin) : Prop :=
  ∀ sums, host.release pin.repository pin.release = some sums →
    0 ∉ sums

theorem lockName_form (pin : Pin) :
    dot ∈ pin.repository ++ lockSuffix ∧
      (space ∉ pin.repository ++ lockSuffix ∧
        lf ∉ pin.repository ++ lockSuffix) ∧
        0 ∉ pin.repository ++ lockSuffix := by
  have hByte :
      ∀ b : UInt8, isRepositoryByte b = true →
        b ≠ space ∧ b ≠ lf ∧ b ≠ 0 :=
    forall_byte (by decide +kernel)
  have hSuffix :
      ∀ b ∈ lockSuffix, b ≠ space ∧ b ≠ lf ∧ b ≠ 0 :=
    forall_mem_of_all (by decide)
  have hBytes :
      ∀ b ∈ pin.repository ++ lockSuffix,
        b ≠ space ∧ b ≠ lf ∧ b ≠ 0 := by
    intro b hb
    rcases List.mem_append.mp hb with hb | hb
    · exact hByte b
        (mem_of_isRepository pin.repositoryForm b hb)
    · exact hSuffix b hb
  exact ⟨List.mem_append_right _ (by decide),
    ⟨fun hMem => (hBytes space hMem).1 rfl,
      fun hMem => (hBytes lf hMem).2.1 rfl⟩,
    fun hMem => (hBytes 0 hMem).2.2 rfl⟩

/- The keys that `verify` reads are in plain. -/
def PlainKeys (text : Bytes) : Prop :=
  ∀ key ∈ [keyRepository, keyRelease, keySums],
    PlainKey key text

/-
  What `verify` asks of a pin file, in the values that `sed`
  reads out of it.
-/
def SedVerified
    (host : Host)
    (dir : LocksDir)
    (text : Bytes) : Prop :=
  sedValue keyRelease text ≠ offline ∧
    ∃ sums lock : Bytes,
      host.release (sedValue keyRepository text)
          (sedValue keyRelease text) = some sums ∧
        host.sha256 sums = sedValue keySums text ∧
        lockAt host dir (sedValue keyRepository text) =
          some lock ∧
        listedNames sums =
          sedValue keyRepository text ++ lockSuffix ∧
        listedHashes sums = host.sha256 lock

/- One turn of the loop. -/
theorem verifyPin_eq_ok_iff
    {host : Host}
    {dir : LocksDir}
    {text : Bytes} :
    verifyPin host dir text = .ok () ↔
      SedVerified host dir text := by
  unfold verifyPin SedVerified
  simp only
  rw [unit_bind_eq_ok_iff, orDie_eq_ok_iff, decide_eq_true_eq]
  cases host.release (sedValue keyRepository text)
      (sedValue keyRelease text) with
  | none => simp
  | some sums =>
      simp only [unit_bind_eq_ok_iff, orDie_eq_ok_iff,
        decide_eq_true_eq]
      cases lockAt host dir (sedValue keyRepository text) with
      | none => simp
      | some lock =>
          simp only [orDie_eq_ok_iff, decide_eq_true_eq]
          constructor
          · rintro ⟨hPublished, hHash, hNames, hHashes⟩
            exact ⟨hPublished, sums, lock, rfl, hHash, rfl,
              hNames, hHashes⟩
          · rintro ⟨hPublished, sums', lock', hSums, hHash,
              hLock, hBoth⟩
            injection hSums with hSums
            injection hLock with hLock
            subst hSums hLock
            exact ⟨hPublished, hHash, hBoth⟩

/- In a file that `sed` reads, they are the values of the pin. -/
theorem sedVerified_iff
    {host : Host}
    {dir : LocksDir}
    {text : Bytes}
    {pin : Pin}
    (hFile : LoosePinFile iconv text pin)
    (hPlain : PlainKeys text)
    (hPublished : pin.release ≠ offline) :
    SedVerified host dir text ↔
      LooselyVerified host dir pin := by
  have hRepository :
      sedValue keyRepository text = pin.repository :=
    sedValue_of_pinFile hFile (by simp [Pin.fields])
      (by decide) (ne_nil_of_isRepository pin.repositoryForm)
      (hPlain _ (by simp))
  have hRelease : sedValue keyRelease text = pin.release :=
    sedValue_of_pinFile hFile (by simp [Pin.fields])
      (by decide) pin.release_ne_nil (hPlain _ (by simp))
  have hTrust : sedValue keySums text = pin.sums :=
    sedValue_of_pinFile hFile (by simp [Pin.fields])
      (by decide) (ne_nil_of_isSha pin.sumsForm)
      (hPlain _ (by simp))
  have hSlash : slash ∉ pin.repository := fun hMem =>
    (bytes_of_isRepository pin.repositoryForm slash hMem).2.2 rfl
  have hName := lockName_form pin
  have hListed :
      ∀ sums lock : Bytes,
        (listedNames sums = pin.repository ++ lockSuffix ∧
            listedHashes sums = host.sha256 lock) ↔
          ListsLoosely sums (pin.repository ++ lockSuffix)
            (host.sha256 lock) :=
    fun sums lock =>
      listed_iff (host.sha256Form lock) hName.1 hName.2.1.1
        hName.2.1.2
  unfold SedVerified LooselyVerified lockAt
  rw [hRepository, hRelease, hTrust, if_neg hSlash]
  simp only [hListed]
  exact ⟨fun h => h.2, fun h => ⟨hPublished, h⟩⟩

------------------------------------------------------------
-- Accepted Directories
------------------------------------------------------------

/- A file with a name of one line, and a pin in plain. -/
def PlainPin
    (iconv : Iconv)
    (dir : LocksDir)
    (pin : Pin) : Prop :=
  ∃ file ∈ dir.pinFiles, lf ∉ file ∧ ∃ text,
    dir.pins.read file = some text ∧
      LoosePinFile iconv text pin ∧ PlainKeys text

theorem PlainPin.holds
    {dir : LocksDir}
    {pin : Pin}
    (hPlain : PlainPin iconv dir pin) :
    HoldsPin iconv dir pin := by
  rcases hPlain with ⟨file, hFile, _, text, hText, hPin, _⟩
  exact ⟨file, hFile, text, hText, hPin⟩

/- What another file holds, which `sed` reads otherwise. -/
def OtherPinFile
    (dir : LocksDir)
    (text : Bytes) : Prop :=
  ∃ file ∈ dir.globbedPins,
    dir.pins.read file = some text ∧
      (lf ∈ file ∨ ¬ PlainKeys text)

/- What `check` accepts, `check-lock.sh` does. -/
theorem of_check_eq_ok
    {grep : Grep}
    {expand : Bytes → List Bytes}
    {mode : PinsMode}
    {dir : LocksDir}
    (hCheck : check iconv grep expand mode dir = .ok ()) :
    (∃ lock, dir.files.read buildEnvLock = some lock) ∧
      LooseRules iconv expand mode dir := by
  unfold check at hCheck
  rw [unit_bind_eq_ok_iff, orDie_eq_ok_iff,
    Option.isSome_iff_exists] at hCheck
  refine ⟨hCheck.1, ?_⟩
  cases hPins : checkPins iconv grep expand mode dir with
  | error failure =>
      rw [hPins] at hCheck
      exact absurd hCheck.2 (by simp)
  | ok value => exact (checkPins_eq_ok_iff.mp hPins).1

section Accepted

variable {expand : Bytes → List Bytes}
variable {mode : PinsMode}
variable {dir : LocksDir}

/- A pin file of an accepted directory holds a pin. -/
theorem pinFile_of_looseRules
    (hRules : LooseRules iconv expand mode dir)
    {file : Bytes}
    (hFile : file ∈ dir.pinFiles)
    (hLf : lf ∉ file) :
    ∃ (text : Bytes) (pin : Pin),
      dir.pins.read file = some text ∧
        LoosePinFile iconv text pin ∧
          file.head? ≠ some dot := by
  rcases List.mem_filter.mp hFile with ⟨hMem, hSuffix⟩
  rcases isSuffixOf_iff.mp hSuffix with ⟨name, rfl⟩
  have hListed : name ∈ dir.pinNames :=
    mem_listing_of_mem hLf hFile
  rcases hRules.pins name hListed with
    ⟨text, _, pin, hEntry⟩
  refine ⟨text, pin, hEntry.pinRead, hEntry.file, ?_⟩
  have hFront : ∃ behind, name = pin.repository ++ behind := by
    rcases looseName_iff.mp hEntry.name with hName | hName
    · exact ⟨_, hName⟩
    · exact ⟨_, hName.2⟩
  rcases hFront with ⟨behind, rfl⟩
  cases hRepository : pin.repository with
  | nil =>
      exact absurd hRepository
        (ne_nil_of_isRepository pin.repositoryForm)
  | cons b rest =>
      rw [List.cons_append, List.cons_append, List.head?_cons]
      intro hHead
      injection hHead with hHead
      apply pin.dot_notMem_repository
      rw [hRepository, hHead]
      exact List.mem_cons_self

/- A pin whose repository is scoped has no lock without scope. -/
theorem no_unscoped_lock
    (hRules : LooseRules iconv expand mode dir)
    {pin : Pin}
    (hScope : pin.scope ≠ none) :
    dir.files.read (pin.repository ++ lockSuffix) = none := by
  cases hRead :
      dir.files.read (pin.repository ++ lockSuffix) with
  | none => rfl
  | some lock =>
      have hScoped : isScoped pin.repository = true := by
        rw [← pin.scopedForm]
        cases hPin : pin.scope with
        | none => exact absurd hPin hScope
        | some scope => rfl
      have hIn :
          pin.repository ++ lockSuffix ∈ dir.files.names :=
        dir.files.mem_names_iff.mpr ⟨lock, hRead⟩
      have hOther :
          pin.repository ++ lockSuffix ≠ upstreamLock := by
        intro hSame
        rw [upstreamLock_eq] at hSame
        rw [List.append_cancel_right hSame] at hScoped
        exact absurd hScoped (by decide)
      have hLf := (lockName_form pin).2.1.2
      have hListed := hRules.locks pin.repository
        (mem_listing_of_mem hLf
          (dir.mem_lockFiles_iff.mpr ⟨hIn, hOther⟩))
      rcases hRules.pins _ hListed with ⟨_, _, pin', hEntry⟩
      have hPlainName :=
        beforeFirst_of_notMem pin.dot_notMem_repository
      have hRepository := hEntry.name.repository
      have hNone := hEntry.name.scope
      unfold fileScope at hNone
      rw [if_pos hPlainName.symm] at hNone
      rw [hPlainName] at hRepository
      have hForm := pin'.scopedForm
      rw [hRepository, hScoped] at hForm
      cases hPin : pin'.scope with
      | none =>
          rw [hPin] at hForm
          exact absurd hForm Bool.false_ne_true
      | some scope =>
          rw [hPin, Option.getD_some] at hNone
          exact absurd hNone (ne_nil_of_isRepository
            (pin'.isRepository_of_scope hPin))

/- An accepted directory has a pin that is not hidden. -/
theorem globbedPins_ne_nil
    (hRules : LooseRules iconv expand mode dir)
    (hLock : ∃ lock,
      dir.files.read buildEnvLock = some lock) :
    dir.globbedPins ≠ [] := by
  have hSplit :
      buildEnvLock = ascii "mica-build-env" ++ lockSuffix := by
    decide
  have hIn :
      ascii "mica-build-env" ++ lockSuffix ∈
        dir.files.names := by
    rw [← hSplit]
    exact dir.files.mem_names_iff.mpr hLock
  have hListed := hRules.locks _
    (mem_listing_of_mem (by decide)
      (dir.mem_lockFiles_iff.mpr ⟨hIn, by decide⟩))
  rcases hRules.pins _ hListed with ⟨text, _, _, hEntry⟩
  have hPin :=
    mem_pinFiles_of_mem
      (dir.pins.mem_names_iff.mpr ⟨text, hEntry.pinRead⟩)
  exact
    List.ne_nil_of_mem
      (List.mem_filter.mpr ⟨hPin, by decide⟩)

/- All of the loop, for an accepted directory. -/
theorem verifyPins_eq_ok_iff
    {host : Host}
    (hRules : LooseRules iconv expand mode dir)
    (hLock : ∃ lock,
      dir.files.read buildEnvLock = some lock)
    (hPublished : ∀ pin, HoldsPin iconv dir pin →
      pin.release ≠ offline) :
    verifyPins host dir = .ok () ↔
      (∀ pin, PlainPin iconv dir pin →
          LooselyVerified host dir pin) ∧
        ∀ text, OtherPinFile dir text →
          SedVerified host dir text := by
  unfold verifyPins
  rw [if_neg (globbedPins_ne_nil hRules hLock), forM_eq_ok_iff]
  constructor
  · intro hAll
    have hEach :
        ∀ file ∈ dir.globbedPins, ∀ text,
          dir.pins.read file = some text →
            SedVerified host dir text := by
      intro file hFile text hText
      have hTurn := hAll file hFile
      rw [hText, Option.getD_some, verifyPin_eq_ok_iff] at hTurn
      exact hTurn
    constructor
    · rintro pin hPlain
      have hHolds := hPlain.holds
      rcases hPlain with
        ⟨file, hFile, hLf, text, hText, hPin, hKeys⟩
      rcases pinFile_of_looseRules hRules hFile hLf with
        ⟨_, _, _, _, hHead⟩
      rw [← sedVerified_iff hPin hKeys (hPublished pin hHolds)]
      exact
        hEach file
          (List.mem_filter.mpr ⟨hFile, decide_eq_true hHead⟩)
          text hText
    · rintro text ⟨file, hFile, hText, _⟩
      exact hEach file hFile text hText
  · rintro ⟨hPlains, hOthers⟩ file hFile
    have hPin : file ∈ dir.pinFiles := List.mem_of_mem_filter hFile
    rcases dir.pins.mem_names_iff.mp
        (List.mem_of_mem_filter hPin) with
      ⟨text, hText⟩
    rw [hText, Option.getD_some, verifyPin_eq_ok_iff]
    by_cases hPlain : lf ∉ file ∧ PlainKeys text
    · rcases pinFile_of_looseRules hRules hPin hPlain.1 with
        ⟨text', pin, hText', hForm, _⟩
      rw [hText] at hText'
      injection hText' with hSame
      subst hSame
      have hHere : PlainPin iconv dir pin :=
        ⟨file, hPin, hPlain.1, text, hText, hForm, hPlain.2⟩
      rw [sedVerified_iff hForm hPlain.2
        (hPublished pin hHere.holds)]
      exact hPlains pin hHere
    · rw [not_and_or, not_not] at hPlain
      exact hOthers text ⟨file, hFile, hText, hPlain⟩

end Accepted

/- Without a scope, both say the same of an asset of text. -/
theorem pinVerified_iff
    {host : Host}
    {dir : LocksDir}
    {pin : Pin}
    (hScope : pin.scope = none) :
    PinVerified host dir pin ↔
      LooselyVerified host dir pin ∧ TextAsset host pin := by
  have hTag : pin.tag = pin.release := by
    unfold Pin.tag
    rw [hScope]
    rfl
  have hName : pin.name = pin.repository := by
    unfold Pin.name
    rw [hScope]
    exact List.append_nil _
  have hNul := (lockName_form pin).2.2
  unfold PinVerified LooselyVerified TextAsset
  rw [hTag, hName]
  constructor
  · rintro ⟨sums, lock, hSums, hHash, hLock, hLists⟩
    rw [lists_iff (host.sha256Form lock) hNul] at hLists
    refine ⟨⟨sums, lock, hSums, hHash, hLock, hLists.1⟩, ?_⟩
    intro sums' hSums'
    rw [hSums] at hSums'
    rw [← Option.some.inj hSums']
    exact hLists.2
  · rintro ⟨⟨sums, lock, hSums, hHash, hLock, hLists⟩, hText⟩
    refine ⟨sums, lock, hSums, hHash, hLock, ?_⟩
    rw [lists_iff (host.sha256Form lock) hNul]
    exact ⟨hLists, hText sums hSums⟩

/- All of `verify`, for an accepted directory. -/
theorem verify_eq_ok_iff
    {host : Host}
    {grep : Grep}
    {expand : Bytes → List Bytes}
    {mode : PinsMode}
    {dir : LocksDir}
    (hCheck : check iconv grep expand mode dir = .ok ())
    (hPublished : ∀ pin, HoldsPin iconv dir pin →
      pin.release ≠ offline) :
    verify iconv host grep expand mode dir = .ok () ↔
      (∀ pin, PlainPin iconv dir pin →
          LooselyVerified host dir pin) ∧
        ∀ text, OtherPinFile dir text →
          SedVerified host dir text := by
  rcases of_check_eq_ok hCheck with ⟨hLock, hRules⟩
  unfold verify
  rw [unit_bind_eq_ok_iff,
    verifyPins_eq_ok_iff hRules hLock hPublished]
  exact ⟨fun h => h.2, fun h => ⟨hCheck, h⟩⟩

------------------------------------------------------------
-- Correctness
------------------------------------------------------------

/-
  Of an accepted directory whose pins name published releases,
  `verify` accepts just the verified pins.
-/
def VerifyCorrect
    (iconv : Iconv)
    (host : Host)
    (grep : Grep)
    (expand : Bytes → List Bytes)
    (mode : PinsMode)
    (dir : LocksDir) : Prop :=
  check iconv grep expand mode dir = .ok () →
    (∀ pin, HoldsPin iconv dir pin → pin.release ≠ offline) →
      (verify iconv host grep expand mode dir = .ok () ↔
        ∀ pin, HoldsPin iconv dir pin → PinVerified host dir pin)

/-
  The directories that `verify` answers rightly, of those that
  `check` accepts and whose pins name published releases. When
  all pins are verified, no pin in plain is scoped, and what
  `sed` reads in the other files leads to verified assets, too.
  And when what `verify` asks for is there, the assets of the
  pins in plain are text, and the other pins are verified.
-/
def VerifyHolds
    (iconv : Iconv)
    (host : Host)
    (grep : Grep)
    (expand : Bytes → List Bytes)
    (mode : PinsMode)
    (dir : LocksDir) : Prop :=
  check iconv grep expand mode dir = .ok () →
    (∀ pin, HoldsPin iconv dir pin → pin.release ≠ offline) →
      ((∀ pin, HoldsPin iconv dir pin →
          PinVerified host dir pin) →
        (∀ pin, PlainPin iconv dir pin → pin.scope = none) ∧
          ∀ text, OtherPinFile dir text →
            SedVerified host dir text) ∧
      ((∀ pin, PlainPin iconv dir pin →
          pin.scope = none ∧ LooselyVerified host dir pin) →
        (∀ text, OtherPinFile dir text →
          SedVerified host dir text) →
        (∀ pin, PlainPin iconv dir pin →
            TextAsset host pin) ∧
          ∀ pin, HoldsPin iconv dir pin →
            ¬ PlainPin iconv dir pin →
              PinVerified host dir pin)

/- `verify` is right of these directories, and of no other. -/
theorem verifyCorrect_iff
    (iconv : Iconv)
    (host : Host)
    (grep : Grep)
    (expand : Bytes → List Bytes)
    (mode : PinsMode)
    (dir : LocksDir) :
    VerifyCorrect iconv host grep expand mode dir ↔
      VerifyHolds iconv host grep expand mode dir := by
  unfold VerifyCorrect VerifyHolds
  refine
    forall_congr' fun hCheck => forall_congr' fun hPublished => ?_
  rcases of_check_eq_ok hCheck with ⟨_, hRules⟩
  have hUnscoped :
      ∀ pin, LooselyVerified host dir pin →
        pin.scope = none := by
    rintro pin ⟨_, lock, _, _, hRead, _⟩
    by_contra hScope
    rw [no_unscoped_lock hRules hScope] at hRead
    exact absurd hRead (by simp)
  rw [verify_eq_ok_iff hCheck hPublished]
  constructor
  · intro hCorrect
    refine
      ⟨fun hAll => ?_, fun hPlains hOthers =>
        ⟨fun pin hPlain => ?_, fun pin hPin _ => ?_⟩⟩
    · have hBoth := hCorrect.mpr hAll
      exact
        ⟨fun pin hPlain => hUnscoped pin (hBoth.1 pin hPlain),
          hBoth.2⟩
    · have hVerified :=
        hCorrect.mp
          ⟨fun pin hPlain => (hPlains pin hPlain).2, hOthers⟩
          pin hPlain.holds
      exact
        ((pinVerified_iff (hPlains pin hPlain).1).mp
          hVerified).2
    · exact
        hCorrect.mp
          ⟨fun pin hPlain => (hPlains pin hPlain).2, hOthers⟩
          pin hPin
  · rintro ⟨hClaimed, hPassed⟩
    constructor
    · rintro ⟨hPlains, hOthers⟩ pin hPin
      have hEach :
          ∀ pin, PlainPin iconv dir pin →
            pin.scope = none ∧ LooselyVerified host dir pin :=
        fun pin hPlain =>
          ⟨hUnscoped pin (hPlains pin hPlain),
            hPlains pin hPlain⟩
      have hRest := hPassed hEach hOthers
      by_cases hPlain : PlainPin iconv dir pin
      · rw [pinVerified_iff (hEach pin hPlain).1]
        exact ⟨hPlains pin hPlain, hRest.1 pin hPlain⟩
      · exact hRest.2 pin hPin hPlain
    · intro hAll
      have hBoth := hClaimed hAll
      refine ⟨fun pin hPlain => ?_, hBoth.2⟩
      exact
        ((pinVerified_iff (hBoth.1 pin hPlain)).mp
          (hAll pin hPlain.holds)).1

/- An accepted directory with a scoped pin. -/
def envPin : Pin :=
  { dottedPin with
    repository := ascii "mica-build-env"
    sums := ascii "e30985ec8921c8c318c07ceb90bfd441" ++
      ascii "ba1ed37649f4a7bd528a82faa960b9db"
    repositoryForm := by decide
    scopedForm := by decide
    sumsForm := by decide }

def scopedPin : Pin :=
  { dottedPin with
    repository := ascii "mica-build"
    scope := some (ascii "x")
    sums := ascii "3292962245737ba63d3e9a17e27941fa" ++
      ascii "0ad3f887f37fcde6bbd86351be927c96"
    repositoryForm := by decide
    scopeForm := by decide
    scopedForm := by decide
    sumsForm := by decide }

def envLock : Bytes :=
  bareLock "mica-build-env" "20260101-0000"

def scopedLock : Bytes :=
  bareLock "mica-build" "x.20260101-0000"

def envSums : Bytes :=
  sumsLine
    (ascii "abfcb954c2c3e5f4c4fa88661edf28f4" ++
      ascii "64c459bc68f3c3e5b0074de135114f61")
    (ascii "mica-build-env.lock\n")

def scopedSums : Bytes :=
  sumsLine
    (ascii "8f676582e40b7d98549ae973d9fe47cf" ++
      ascii "1bffec9b5b2cb8088919024c6c23e2e3")
    (ascii "mica-build.lock\n")

def scopedDir : LocksDir where
  files := ⟨[(buildEnvLock, envLock),
    (ascii "mica-build.x.lock", scopedLock),
    (upstreamLock, ascii "# mica-lock v1\n")], by decide⟩
  pins := ⟨[(ascii "mica-build-env.pin", unlines envPin.lines),
    (ascii "mica-build.x.pin", unlines scopedPin.lines)],
    by decide⟩

/- The hashes of these files, and their two releases. -/
def sampleHost : Host where
  sha256 content :=
    if content = envLock then
      ascii "abfcb954c2c3e5f4c4fa88661edf28f4" ++
        ascii "64c459bc68f3c3e5b0074de135114f61"
    else if content = scopedLock then
      ascii "8f676582e40b7d98549ae973d9fe47cf" ++
        ascii "1bffec9b5b2cb8088919024c6c23e2e3"
    else if content = envSums then
      envPin.sums
    else if content = scopedSums then
      scopedPin.sums
    else
      List.replicate 64 0x30
  sha256Form content := by
    split_ifs <;> decide
  release repository tag :=
    if repository = envPin.repository ∧ tag = envPin.tag then
      some envSums
    else if repository = scopedPin.repository ∧
        tag = scopedPin.tag then
      some scopedSums
    else
      none
  elsewhere _ := none

theorem loosePinFile_scopedDir :
    LoosePinFile strictIconv (unlines envPin.lines) envPin ∧
      LoosePinFile strictIconv (unlines scopedPin.lines)
        scopedPin := by
  refine ⟨⟨checkText_of_all ?_, ?_⟩, checkText_of_all ?_, ?_⟩
  · decide +kernel
  · decide +kernel
  · decide +kernel
  · decide +kernel

theorem pins_scopedDir :
    scopedDir.pinFiles =
        [ascii "mica-build-env.pin", ascii "mica-build.x.pin"] ∧
      scopedDir.pins.read (ascii "mica-build-env.pin") =
        some (unlines envPin.lines) ∧
      scopedDir.pins.read (ascii "mica-build.x.pin") =
        some (unlines scopedPin.lines) := by
  decide +kernel

/- The pins of this directory. -/
theorem pinFiles_scopedDir
    {file text : Bytes}
    (hFile : file ∈ scopedDir.pinFiles)
    (hText : scopedDir.pins.read file = some text) :
    (text = unlines envPin.lines ∧
        LoosePinFile strictIconv text envPin) ∨
      (text = unlines scopedPin.lines ∧
        LoosePinFile strictIconv text scopedPin) := by
  rcases pins_scopedDir with ⟨hFiles, hEnv, hScoped⟩
  rw [hFiles, List.mem_pair] at hFile
  rcases hFile with rfl | rfl
  · left
    rw [hEnv] at hText
    rw [← Option.some.inj hText]
    exact ⟨rfl, loosePinFile_scopedDir.1⟩
  · right
    rw [hScoped] at hText
    rw [← Option.some.inj hText]
    exact ⟨rfl, loosePinFile_scopedDir.2⟩

theorem holdsPin_scopedDir
    {pin : Pin}
    (hPin : HoldsPin strictIconv scopedDir pin) :
    pin = envPin ∨ pin = scopedPin := by
  rcases hPin with ⟨file, hFile, text, hText, hLoose⟩
  rcases pinFiles_scopedDir hFile hText with
    ⟨_, hEnv⟩ | ⟨_, hScoped⟩
  · left
    apply Pin.lines_injective
    rw [← hLoose.lines, hEnv.lines]
  · right
    apply Pin.lines_injective
    rw [← hLoose.lines, hScoped.lines]

theorem plainPin_scopedDir :
    PlainPin strictIconv scopedDir scopedPin := by
  refine
    ⟨ascii "mica-build.x.pin", by decide +kernel,
      by decide +kernel, unlines scopedPin.lines,
      pins_scopedDir.2.2, loosePinFile_scopedDir.2, ?_⟩
  have hNul : 0 ∉ unlines scopedPin.lines := by
    decide +kernel
  intro key _ line hLine _
  have hNone : 0 ∉ line := fun hMem =>
    hNul ((mem_textLines hLine).2 0 hMem)
  rw [dropNuls_eq_self hNone, cutAtNul_eq_self hNone]

/- Each of its locks is its pin's. -/
theorem lockOf_scopedDir :
    LockOf strictIconv (fun word => [word]) envLock envPin ∧
      LockOf strictIconv (fun word => [word]) scopedLock
        scopedPin := by
  have hEnv : checkText strictIconv envLock = .ok () :=
    checkText_of_all (by decide +kernel)
  have hScoped : checkText strictIconv scopedLock = .ok () :=
    checkText_of_all (by decide +kernel)
  refine ⟨⟨?_, [ascii "release", ascii "mica-build-env",
      ascii "20260101-0000", List.replicate 40 0x30], [], ?_,
      by decide +kernel⟩,
    ⟨?_, [ascii "release", ascii "mica-build",
      ascii "x.20260101-0000", List.replicate 40 0x30], [], ?_,
      by decide +kernel⟩⟩
  · unfold checkLock checkLockWith readRows
    rw [hEnv]
    decide +kernel
  · unfold readRows
    rw [hEnv]
    decide +kernel
  · unfold checkLock checkLockWith readRows
    rw [hScoped]
    decide +kernel
  · unfold readRows
    rw [hScoped]
    decide +kernel

theorem check_scopedDir :
    check strictIconv strictGrep (fun word => [word]) .ci
        scopedDir =
      .ok () := by
  have hNames :
      scopedDir.pinNames =
        [ascii "mica-build-env", ascii "mica-build.x"] := by
    decide +kernel
  have hRules :
      LooseRules strictIconv (fun word => [word]) .ci
        scopedDir := by
    refine ⟨fun name hName => ?_, by decide +kernel⟩
    rw [hNames, List.mem_pair] at hName
    rcases hName with rfl | rfl
    · exact ⟨unlines envPin.lines, envLock, envPin, {
        pinRead := pins_scopedDir.2.1
        lockRead := by decide +kernel
        file := loosePinFile_scopedDir.1
        name := ⟨by decide +kernel, by decide +kernel⟩
        lock := lockOf_scopedDir.1
        checkout := fun _ => rfl }⟩
    · exact ⟨unlines scopedPin.lines, scopedLock, scopedPin, {
        pinRead := pins_scopedDir.2.2
        lockRead := by decide +kernel
        file := loosePinFile_scopedDir.2
        name := ⟨by decide +kernel, by decide +kernel⟩
        lock := lockOf_scopedDir.2
        checkout := fun _ => rfl }⟩
  have hText : TextLocks strictGrep scopedDir := by
    intro name hName lock hRead
    have hIn :=
      scopedDir.files.read_eq_some_iff.mp hRead
    have hAll :
        ∀ entry ∈ scopedDir.files.entries, 0 ∉ entry.2 := by
      decide +kernel
    exact decide_eq_false (hAll _ hIn)
  have hPins := checkPins_eq_ok_iff.mpr ⟨hRules, hText⟩
  have hUpstream :
      checkText strictIconv (ascii "# mica-lock v1\n") =
        .ok () :=
    checkText_of_all (by decide +kernel)
  have hRead :
      scopedDir.files.read upstreamLock =
        some (ascii "# mica-lock v1\n") := by
    decide +kernel
  have hValid :
      checkUpstream strictIconv (ascii "# mica-lock v1\n") =
        .ok () := by
    unfold checkUpstream readRows
    rw [hUpstream]
    decide +kernel
  unfold check
  rw [unit_bind_eq_ok_iff]
  refine ⟨by decide +kernel, ?_⟩
  rw [hPins, hRead]
  simp only [hValid]

theorem not_verifyCorrect_scopedDir :
    ¬ VerifyCorrect strictIconv sampleHost strictGrep
      (fun word => [word]) .ci scopedDir := by
  intro hCorrect
  have hPublished :
      ∀ pin, HoldsPin strictIconv scopedDir pin →
        pin.release ≠ offline := by
    intro pin hPin
    rcases holdsPin_scopedDir hPin with rfl | rfl
    · decide
    · decide
  have hVerified :
      ∀ pin, HoldsPin strictIconv scopedDir pin →
        PinVerified sampleHost scopedDir pin := by
    intro pin hPin
    rcases holdsPin_scopedDir hPin with rfl | rfl
    · exact ⟨envSums, envLock, by decide +kernel,
        by decide +kernel, by decide +kernel, [],
        by decide +kernel, by simp⟩
    · exact ⟨scopedSums, scopedLock, by decide +kernel,
        by decide +kernel, by decide +kernel, [],
        by decide +kernel, by simp⟩
  have hVerify :=
    (hCorrect check_scopedDir hPublished).mpr hVerified
  rw [verify_eq_ok_iff check_scopedDir hPublished] at hVerify
  rcases hVerify.1 scopedPin plainPin_scopedDir with
    ⟨sums, _, hRelease, _⟩
  have hNone :
      sampleHost.release scopedPin.repository
        scopedPin.release = none := by
    decide +kernel
  rw [hNone] at hRelease
  exact absurd hRelease (by simp)

end Locks

end MicaBoards

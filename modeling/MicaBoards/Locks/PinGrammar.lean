import MicaBoards.Locks.Accepted
import MicaBoards.Locks.Pins

/-
  A pin as a value that keeps the rules of its fields, and the
  texts that are read as this pin.

  Main declarations:
    * `Pin`
    * `readKeys_eq_ok_iff`
    * `checkPin_eq_ok_iff`
-/

------------------------------------------------------------
-- Pins
------------------------------------------------------------

namespace MicaBoards

namespace Locks

open Text

/- A pin whose fields have the required forms. -/
structure Pin where
  repository : Bytes
  scope : Option Bytes
  release : Bytes
  sums : Bytes
  checkout : Option Bytes
  repositoryForm : isRepository repository = true
  scopeForm : scope.all isRepository = true
  scopedForm : scope.isSome = isScoped repository
  releaseForm : release = offline ∨ isStamp release = true
  sumsForm : isSha sums = true
  checkoutOffline : checkout.isSome = decide (release = offline)
  checkoutForm : checkout.all isAbsolute = true

/- A key and its value, as a line holds them. -/
def renderField (field : Bytes × Bytes) : Bytes :=
  field.1 ++ equals :: field.2

/- A line as a key and its value. -/
def readField (line : Bytes) : Bytes × Bytes :=
  (beforeFirst equals line, afterFirst equals line)

namespace Pin

variable (pin : Pin)

/- The keys of a pin with their values, in order. -/
def fields : List (Bytes × Bytes) :=
  [(keyRepository, pin.repository)] ++
    pin.scope.toList.map (fun scope => (keyScope, scope)) ++
    [(keyRelease, pin.release), (keySums, pin.sums)] ++
    pin.checkout.toList.map fun checkout =>
      (keyCheckout, checkout)

/- The lines of a pin. -/
def lines : List Bytes :=
  pinHeader :: pin.fields.map renderField

/- The name of its file and of its lock, without suffix. -/
def name : Bytes :=
  pin.repository ++ pin.scope.elim [] (dot :: ·)

/- What is kept of it. -/
def pinned : Pinned where
  repository := pin.repository
  scope := pin.scope.getD []
  release := pin.release
  checkout := pin.checkout.getD []

end Pin

/- A text that the checker reads as this pin. -/
structure LoosePinFile
    (iconv : Iconv)
    (text : Bytes)
    (pin : Pin) : Prop where
  isText : checkText iconv text = .ok ()
  lines : mapfile text = pin.lines

/- A file name that the checker takes for this pin's. -/
structure LooseName (name : Bytes) (pin : Pin) : Prop where
  repository : pin.repository = beforeFirst dot name
  scope : pin.scope.getD [] = fileScope name

------------------------------------------------------------
-- Tables
------------------------------------------------------------

/- With each key once, what is found is what is there. -/
theorem lookup_eq_some_iff_mem
    {entries : List (Bytes × Bytes)}
    (hNodup : (entries.map Prod.fst).Nodup)
    {key value : Bytes} :
    entries.lookup key = some value ↔
      (key, value) ∈ entries := by
  induction entries with
  | nil => simp
  | cons entry entries ih =>
      rw [List.map_cons, List.nodup_cons] at hNodup
      rw [List.lookup_cons, List.mem_cons]
      by_cases hKey : key = entry.1
      · have hRest : (key, value) ∉ entries := by
          intro hMem
          apply hNodup.1
          rw [← hKey]
          exact List.mem_map_of_mem hMem
        simp only [hKey, BEq.rfl]
        rw [hKey] at hRest
        simp [hRest, Prod.ext_iff, eq_comm]
      · have hOther : ¬ (key, value) = entry := by
          rintro rfl
          exact hKey rfl
        rw [beq_eq_false_iff_ne.mpr hKey]
        simp only [hOther, false_or]
        exact ih hNodup.2

theorem mem_of_lookup
    {α : Type}
    {entries : List (Bytes × α)}
    {key : Bytes}
    {value : α}
    (hLookup : entries.lookup key = some value) :
    (key, value) ∈ entries := by
  induction entries with
  | nil => simp at hLookup
  | cons entry entries ih =>
      rw [List.lookup_cons] at hLookup
      split at hLookup
      · next hKey =>
          rw [beq_iff_eq] at hKey
          injection hLookup with hValue
          rw [hKey, ← hValue]
          exact List.mem_cons_self
      · exact List.mem_cons_of_mem _ (ih hLookup)

/- The keys of a pin are in the table, each once. -/
theorem nodup_wantedKeys (hasScope isOffline : Bool) :
    (wantedKeys hasScope isOffline).Nodup := by
  cases hasScope <;> cases isOffline <;> decide

theorem space_notMem_wantedKeys
    (hasScope isOffline : Bool) :
    ∀ key ∈ wantedKeys hasScope isOffline, space ∉ key := by
  cases hasScope <;> cases isOffline <;> decide

theorem equals_notMem_wantedKeys
    (hasScope isOffline : Bool) :
    ∀ key ∈ wantedKeys hasScope isOffline,
      equals ∉ key ∧ key ≠ [] := by
  cases hasScope <;> cases isOffline <;> decide

theorem Pin.keys_fields (pin : Pin) :
    pin.fields.map Prod.fst =
      wantedKeys pin.scope.isSome pin.checkout.isSome := by
  unfold Pin.fields wantedKeys
  cases pin.scope with
  | none => cases pin.checkout <;> rfl
  | some scope => cases pin.checkout <;> rfl

------------------------------------------------------------
-- Lines
------------------------------------------------------------

theorem readField_renderField
    {field : Bytes × Bytes}
    (hKey : equals ∉ field.1) :
    readField (renderField field) = field := by
  unfold readField renderField
  rw [beforeFirst_append hKey, afterFirst_append hKey]

theorem renderField_readField
    {line : Bytes}
    (hMem : equals ∈ line) :
    renderField (readField line) = line :=
  beforeFirst_append_afterFirst hMem

theorem joinKeys_cons (key : Bytes) (keys : List Bytes) :
    joinKeys (key :: keys) = space :: key ++ joinKeys keys :=
  List.flatMap_cons

/- One line of a pin. -/
theorem readKey_eq_ok_iff
    {keys next : PinKeys}
    {line : Bytes} :
    readKey keys line = .ok next ↔
      (equals ∈ line ∧ (readField line).1 ≠ []) ∧
        next = {
          seen := keys.seen ++ space :: (readField line).1
          values := readField line :: keys.values } := by
  unfold readKey readField
  by_cases hEquals : equals ∈ line
  · by_cases hKey : beforeFirst equals line = []
    · simp [hEquals, hKey]
    · rw [if_neg (not_not.mpr hEquals), if_neg hKey]
      simp [hEquals, hKey, eq_comm]
  · simp [hEquals]

/- The loop over the lines of a pin. -/
theorem readKeys_eq_ok_iff
    {keys after : PinKeys}
    {lines : List Bytes} :
    readKeys keys lines = .ok after ↔
      (∀ line ∈ lines,
        equals ∈ line ∧ (readField line).1 ≠ []) ∧
        after = {
          seen := keys.seen ++
            joinKeys ((lines.map readField).map Prod.fst)
          values := (lines.map readField).reverse ++
            keys.values } := by
  induction lines generalizing keys with
  | nil =>
      have hSame :
          ({ seen := keys.seen ++ joinKeys []
             values := [] ++ keys.values } : PinKeys) =
            keys := by
        unfold joinKeys
        rw [List.flatMap_nil, List.append_nil,
          List.nil_append]
      rw [readKeys, List.map_nil, List.map_nil,
        List.reverse_nil, hSame]
      constructor
      · intro hKeys
        injection hKeys with hKeys
        exact ⟨by simp, hKeys.symm⟩
      · rintro ⟨_, rfl⟩
        rfl
  | cons line lines ih =>
      rw [readKeys, bind_eq_ok_iff, List.forall_mem_cons]
      have hSeen :
          keys.seen ++ space :: (readField line).1 ++
              joinKeys ((lines.map readField).map Prod.fst) =
            keys.seen ++
              joinKeys
                (((line :: lines).map readField).map
                  Prod.fst) := by
        rw [List.map_cons, List.map_cons, joinKeys_cons,
          List.append_assoc]
      have hValues :
          (lines.map readField).reverse ++
              readField line :: keys.values =
            ((line :: lines).map readField).reverse ++
              keys.values := by
        rw [List.map_cons, List.reverse_cons,
          List.append_assoc, List.singleton_append]
      constructor
      · rintro ⟨next, hLine, hRest⟩
        rw [readKey_eq_ok_iff] at hLine
        rcases hLine with ⟨hLine, rfl⟩
        rw [ih, hSeen, hValues] at hRest
        exact ⟨⟨hLine, hRest.1⟩, hRest.2⟩
      · rintro ⟨⟨hLine, hLines⟩, hAfter⟩
        refine ⟨_, readKey_eq_ok_iff.mpr ⟨hLine, rfl⟩, ?_⟩
        rw [ih, hSeen, hValues]
        exact ⟨hLines, hAfter⟩

------------------------------------------------------------
-- Tables of Pins
------------------------------------------------------------

/- `KEYS_SEEN` and `VALUES` behind some lines -/
def tableOf (fields : List (Bytes × Bytes)) : PinKeys where
  seen := joinKeys (fields.map Prod.fst)
  values := fields.reverse

/- All lines of a pin. -/
theorem readKeys_empty_eq_ok_iff
    {after : PinKeys}
    {lines : List Bytes} :
    readKeys PinKeys.empty lines = .ok after ↔
      (∀ line ∈ lines,
        equals ∈ line ∧ (readField line).1 ≠ []) ∧
        after = tableOf (lines.map readField) := by
  rw [readKeys_eq_ok_iff]
  unfold PinKeys.empty tableOf
  rw [List.nil_append, List.append_nil]

section Tables

variable {fields : List (Bytes × Bytes)}
variable {key value : Bytes}

theorem mem_keys_of_value
    (hValue : (tableOf fields).value key = some value) :
    key ∈ fields.map Prod.fst :=
  List.mem_map_of_mem
    (List.mem_reverse.mp (mem_of_lookup hValue))

theorem value_eq_none
    (hMem : key ∉ fields.map Prod.fst) :
    (tableOf fields).value key = none := by
  cases hValue : (tableOf fields).value key with
  | none => rfl
  | some value => exact absurd (mem_keys_of_value hValue) hMem

theorem value_eq_some_iff_mem
    (hNodup : (fields.map Prod.fst).Nodup) :
    (tableOf fields).value key = some value ↔
      (key, value) ∈ fields := by
  have hReverse : (fields.reverse.map Prod.fst).Nodup := by
    rw [List.map_reverse, List.nodup_reverse]
    exact hNodup
  unfold PinKeys.value tableOf
  rw [lookup_eq_some_iff_mem hReverse, List.mem_reverse]

/- A table that holds each key once is given by its keys. -/
theorem fields_eq_map
    (hNodup : (fields.map Prod.fst).Nodup) :
    (fields.map Prod.fst).map
        (fun key =>
          (key, ((tableOf fields).value key).getD [])) =
      fields := by
  rw [List.map_map]
  calc
    _ = fields.map id := by
      apply List.map_congr_left
      intro field hField
      have hValue :
          (tableOf fields).value field.1 = some field.2 :=
        (value_eq_some_iff_mem hNodup).mpr hField
      rw [Function.comp_apply, hValue]
      rfl
    _ = fields := List.map_id fields

end Tables

namespace Pin

variable (pin : Pin)

/- The table behind the lines of a pin. -/
def table : PinKeys :=
  tableOf pin.fields

theorem nodup_fields :
    (pin.fields.map Prod.fst).Nodup := by
  rw [keys_fields]
  exact nodup_wantedKeys _ _

theorem equals_notMem_fields :
    ∀ field ∈ pin.fields, equals ∉ field.1 ∧ field.1 ≠ [] := by
  intro field hField
  have hKey : field.1 ∈ pin.fields.map Prod.fst :=
    List.mem_map_of_mem hField
  rw [keys_fields] at hKey
  exact equals_notMem_wantedKeys _ _ _ hKey

/- The fields of a pin are read back from its lines. -/
theorem readField_fields :
    (pin.fields.map renderField).map readField =
      pin.fields := by
  rw [List.map_map]
  calc
    _ = pin.fields.map id := by
      apply List.map_congr_left
      intro field hField
      exact readField_renderField
        (pin.equals_notMem_fields field hField).1
    _ = pin.fields := List.map_id _

theorem value_eq_some_of_mem
    {key value : Bytes}
    (hMem : (key, value) ∈ pin.fields) :
    pin.table.value key = some value :=
  (value_eq_some_iff_mem pin.nodup_fields).mpr hMem

@[simp] theorem value_repository :
    pin.table.value keyRepository = some pin.repository := by
  apply value_eq_some_of_mem
  simp [fields]

@[simp] theorem value_release :
    pin.table.value keyRelease = some pin.release := by
  apply value_eq_some_of_mem
  simp [fields]

@[simp] theorem value_sums :
    pin.table.value keySums = some pin.sums := by
  apply value_eq_some_of_mem
  simp [fields]

@[simp] theorem value_scope :
    pin.table.value keyScope = pin.scope := by
  cases hScope : pin.scope with
  | none =>
      apply value_eq_none
      rw [keys_fields, hScope]
      cases pin.checkout.isSome <;> decide
  | some scope =>
      apply value_eq_some_of_mem
      simp [fields, hScope]

@[simp] theorem value_checkout :
    pin.table.value keyCheckout = pin.checkout := by
  cases hCheckout : pin.checkout with
  | none =>
      apply value_eq_none
      rw [keys_fields, hCheckout]
      cases pin.scope.isSome <;> decide
  | some checkout =>
      apply value_eq_some_of_mem
      simp [fields, hCheckout]

/- A pin is given by its lines. -/
theorem lines_injective
    {pin pin' : Pin}
    (hLines : pin.lines = pin'.lines) :
    pin = pin' := by
  unfold lines at hLines
  injection hLines with _ hRendered
  have hFields : pin.fields = pin'.fields := by
    rw [← pin.readField_fields, hRendered,
      pin'.readField_fields]
  have hTable : pin.table = pin'.table := by
    unfold table
    rw [hFields]
  have hRepository := pin.value_repository
  have hScope := pin.value_scope
  have hRelease := pin.value_release
  have hSums := pin.value_sums
  have hCheckout := pin.value_checkout
  rw [hTable, value_repository] at hRepository
  rw [hTable, value_scope] at hScope
  rw [hTable, value_release] at hRelease
  rw [hTable, value_sums] at hSums
  rw [hTable, value_checkout] at hCheckout
  injection hRepository with hRepository
  injection hRelease with hRelease
  injection hSums with hSums
  cases pin
  cases pin'
  subst hRepository hScope hRelease hSums hCheckout
  rfl

end Pin

theorem required_eq_ok_iff
    {keys : PinKeys}
    {key value : Bytes} :
    keys.required key = .ok value ↔
      keys.value key = some value := by
  unfold PinKeys.required
  cases keys.value key with
  | none => simp
  | some found => simp

theorem checkoutOf_eq_ok_iff
    {keys : PinKeys}
    {checkout : Bytes} :
    checkoutOf keys = .ok checkout ↔
      if (keys.value keyRelease).getD [] = offline then
        keys.value keyCheckout = some checkout
      else
        (keys.value keyCheckout).getD [] = checkout := by
  unfold checkoutOf
  split_ifs with hOffline
  · exact required_eq_ok_iff
  · simp

/- The checks of values, without their order. -/
structure ValuesOf
    (name : Bytes)
    (keys : PinKeys)
    (pinned : Pinned) : Prop where
  repository : keys.value keyRepository = some pinned.repository
  scope : (keys.value keyScope).getD [] = pinned.scope
  release : (keys.value keyRelease).getD [] = pinned.release
  repositoryForm : isRepository pinned.repository = true
  sums : ∃ sums, keys.value keySums = some sums ∧
    isSha sums = true
  releaseForm : pinned.release = offline ∨
    isStamp pinned.release = true
  scopeForm : (keys.value keyScope).all isRepository = true
  checkout :
    if pinned.release = offline then
      keys.value keyCheckout = some pinned.checkout
    else
      (keys.value keyCheckout).getD [] = pinned.checkout
  checkoutForm : pinned.release = offline →
    isAbsolute pinned.checkout = true
  repositoryName : pinned.repository = beforeFirst dot name
  scopeName : pinned.scope = fileScope name
  scopedForm : (keys.value keyScope).isSome =
    isScoped pinned.repository

theorem checkValues_eq_ok_iff
    {name : Bytes}
    {keys : PinKeys}
    {pinned : Pinned} :
    checkValues name keys = .ok pinned ↔
      ValuesOf name keys pinned := by
  unfold checkValues
  simp only [@bind_eq_ok_iff Failure Bytes, require_bind_eq_ok_iff,
    required_eq_ok_iff, Bool.and_eq_true, Bool.or_eq_true,
    decide_eq_true_eq]
  constructor
  · rintro ⟨repository, hRepository, hForm, sums, hSums,
      ⟨⟨hSha, hRelease⟩, hScope⟩, checkout, hCheckout,
      hAbsolute, hName, hFileScope, hScoped, hPinned⟩
    injection hPinned with hPinned
    subst hPinned
    exact {
      repository := hRepository
      scope := rfl
      release := rfl
      repositoryForm := hForm
      sums := ⟨sums, hSums, hSha⟩
      releaseForm := hRelease
      scopeForm := hScope
      checkout := checkoutOf_eq_ok_iff.mp hCheckout
      checkoutForm := fun hOffline =>
        hAbsolute.resolve_left (not_not.mpr hOffline)
      repositoryName := hName
      scopeName := hFileScope
      scopedForm := by rw [hScoped, ← hName] }
  · intro hValues
    refine ⟨pinned.repository, hValues.repository,
      hValues.repositoryForm, ?_⟩
    rcases hValues.sums with ⟨sums, hSums, hSha⟩
    refine ⟨sums, hSums, ⟨⟨hSha, ?_⟩, hValues.scopeForm⟩,
      pinned.checkout, ?_, ?_, hValues.repositoryName, ?_,
      ?_, ?_⟩
    · rw [hValues.release]
      exact hValues.releaseForm
    · rw [checkoutOf_eq_ok_iff, hValues.release]
      exact hValues.checkout
    · rw [hValues.release]
      by_cases hOffline : pinned.release = offline
      · exact Or.inr (hValues.checkoutForm hOffline)
      · exact Or.inl hOffline
    · rw [hValues.scope]
      exact hValues.scopeName
    · rw [hValues.scopedForm, hValues.repositoryName]
    · rw [hValues.scope, hValues.release]
      rfl

/- Keys that join to the wanted ones are the wanted ones. -/
theorem keys_eq_wantedKeys
    {name : Bytes}
    {fields : List (Bytes × Bytes)}
    {pinned : Pinned}
    (hSeen :
      (tableOf fields).seen =
        joinKeys
          (wantedKeys ((tableOf fields).value keyScope).isSome
            (pinned.release = offline)))
    (hValues : ValuesOf name (tableOf fields) pinned) :
    fields.map Prod.fst =
      wantedKeys ((tableOf fields).value keyScope).isSome
        (pinned.release = offline) := by
  apply eq_of_flatMap_eq (space_notMem_wantedKeys _ _)
    (nodup_wantedKeys _ _) _ hSeen
  intro key hKey
  unfold wantedKeys at hKey
  rw [List.mem_append, List.mem_append, List.mem_append,
    List.mem_singleton, List.mem_pair] at hKey
  rcases hKey with ((rfl | hScope) | rfl | rfl) | hCheckout
  · exact mem_keys_of_value hValues.repository
  · split_ifs at hScope with hSome
    · rw [List.mem_singleton] at hScope
      rcases Option.isSome_iff_exists.mp hSome with
        ⟨scope, hValue⟩
      rw [hScope]
      exact mem_keys_of_value hValue
    · exact absurd hScope List.not_mem_nil
  · cases hRelease : (tableOf fields).value keyRelease with
    | some release => exact mem_keys_of_value hRelease
    | none =>
        have hForm := hValues.releaseForm
        rw [← hValues.release, hRelease] at hForm
        exact absurd hForm (by decide)
  · rcases hValues.sums with ⟨sums, hSums, _⟩
    exact mem_keys_of_value hSums
  · split_ifs at hCheckout with hOffline
    · rw [List.mem_singleton] at hCheckout
      have hValue := hValues.checkout
      rw [if_pos (of_decide_eq_true hOffline)] at hValue
      rw [hCheckout]
      exact mem_keys_of_value hValue
    · exact absurd hCheckout List.not_mem_nil

/- The wanted keys with their values. -/
theorem map_wantedKeys
    {value : Bytes → Option Bytes}
    {repository release sums : Bytes}
    {checkout : Option Bytes}
    (hRepository : value keyRepository = some repository)
    (hRelease : (value keyRelease).getD [] = release)
    (hSums : value keySums = some sums)
    (hCheckout : ∀ text, checkout = some text →
      value keyCheckout = some text) :
    (wantedKeys (value keyScope).isSome checkout.isSome).map
        (fun key => (key, (value key).getD [])) =
      [(keyRepository, repository)] ++
        (value keyScope).toList.map
          (fun scope => (keyScope, scope)) ++
        [(keyRelease, release), (keySums, sums)] ++
        checkout.toList.map
          fun checkout => (keyCheckout, checkout) := by
  unfold wantedKeys
  cases hScope : value keyScope with
  | none =>
      cases checkout with
      | none => simp [hRepository, hRelease, hSums]
      | some text =>
          simp [hRepository, hRelease, hSums,
            hCheckout text rfl]
  | some scope =>
      cases checkout with
      | none => simp [hScope, hRepository, hRelease, hSums]
      | some text =>
          simp [hScope, hRepository, hRelease, hSums,
            hCheckout text rfl]

/- A table that passes the checks is that of a pin. -/
theorem exists_pin
    {name : Bytes}
    {fields : List (Bytes × Bytes)}
    {pinned : Pinned}
    (hSeen :
      (tableOf fields).seen =
        joinKeys
          (wantedKeys ((tableOf fields).value keyScope).isSome
            (pinned.release = offline)))
    (hValues : ValuesOf name (tableOf fields) pinned) :
    ∃ pin : Pin, pin.fields = fields ∧
      LooseName name pin ∧ pinned = pin.pinned := by
  have hKeys := keys_eq_wantedKeys hSeen hValues
  have hNodup : (fields.map Prod.fst).Nodup := by
    rw [hKeys]
    exact nodup_wantedKeys _ _
  have hCheckout := hValues.checkout
  rcases hValues.sums with ⟨sums, hSums, hSha⟩
  let checkout : Option Bytes :=
    if pinned.release = offline then
      some pinned.checkout
    else
      none
  have hOffline :
      checkout.isSome = decide (pinned.release = offline) := by
    unfold checkout
    split_ifs with hRelease
    · exact (decide_eq_true hRelease).symm
    · exact (decide_eq_false hRelease).symm
  have hText : ∀ text, checkout = some text →
      (tableOf fields).value keyCheckout = some text := by
    intro text hSome
    unfold checkout at hSome
    split_ifs at hSome with hRelease
    rw [if_pos hRelease] at hCheckout
    rw [hCheckout, hSome]
  let pin : Pin := {
    repository := pinned.repository
    scope := (tableOf fields).value keyScope
    release := pinned.release
    sums := sums
    checkout := checkout
    repositoryForm := hValues.repositoryForm
    scopeForm := hValues.scopeForm
    scopedForm := hValues.scopedForm
    releaseForm := hValues.releaseForm
    sumsForm := hSha
    checkoutOffline := hOffline
    checkoutForm := by
      unfold checkout
      split_ifs with hRelease
      · exact hValues.checkoutForm hRelease
      · rfl }
  have hPin : pin.fields = fields := by
    have hMap :=
      map_wantedKeys hValues.repository hValues.release hSums
        hText
    rw [hOffline, ← hKeys, fields_eq_map hNodup] at hMap
    exact hMap.symm
  refine ⟨pin, hPin, ⟨hValues.repositoryName, ?_⟩, ?_⟩
  · exact hValues.scope.trans hValues.scopeName
  · have hLast : pinned.checkout = checkout.getD [] := by
      unfold checkout
      split_ifs with hRelease
      · rfl
      · have hNone :
            (tableOf fields).value keyCheckout = none := by
          apply value_eq_none
          rw [hKeys, decide_eq_false hRelease]
          cases ((tableOf fields).value keyScope).isSome <;>
            decide
        rw [if_neg hRelease, hNone] at hCheckout
        exact hCheckout.symm
    cases pinned with
    | mk repository scope release checkout' =>
        have hScope : _ = scope := hValues.scope
        have hLast' : checkout' = _ := hLast
        unfold Pin.pinned
        rw [hLast', ← hScope]

/-
  What the checker accepts as the pin of a name is a pin that
  is named so.
-/
theorem checkPin_eq_ok_iff
    {name text : Bytes}
    {pinned : Pinned} :
    checkPin iconv name text = .ok pinned ↔
      ∃ pin : Pin, LoosePinFile iconv text pin ∧
        LooseName name pin ∧ pinned = pin.pinned := by
  unfold checkPin
  rw [unit_bind_eq_ok_iff, require_bind_eq_ok_iff,
    bind_eq_ok_iff]
  simp only [readKeys_empty_eq_ok_iff, require_bind_eq_ok_iff,
    checkValues_eq_ok_iff, decide_eq_true_eq]
  constructor
  · rintro ⟨hText, hHeader, keys, ⟨hLines, rfl⟩, hSeen,
      hValues⟩
    rw [hValues.release] at hSeen
    rcases exists_pin hSeen hValues with
      ⟨pin, hFields, hName, hPinned⟩
    refine ⟨pin, ⟨hText, ?_⟩, hName, hPinned⟩
    unfold Pin.lines
    cases hRead : mapfile text with
    | nil =>
        rw [hRead] at hHeader
        exact absurd hHeader (by decide)
    | cons header lines =>
        rw [hRead] at hHeader hLines hFields
        rw [List.headD_cons] at hHeader
        rw [List.tail_cons] at hLines hFields
        rw [hHeader, hFields, List.map_map]
        congr 1
        symm
        calc
          _ = lines.map id := by
            apply List.map_congr_left
            intro line hLine
            exact renderField_readField (hLines line hLine).1
          _ = lines := List.map_id lines
  · rintro ⟨pin, hFile, hName, rfl⟩
    refine ⟨hFile.isText, ?_, pin.table, ⟨?_, ?_⟩, ?_, ?_⟩
    · rw [hFile.lines]
      rfl
    · rw [hFile.lines]
      intro line hLine
      rcases List.mem_map.mp hLine with ⟨field, hField, rfl⟩
      have hEquals := pin.equals_notMem_fields field hField
      rw [readField_renderField hEquals.1]
      refine ⟨?_, hEquals.2⟩
      unfold renderField
      simp
    · rw [hFile.lines]
      unfold Pin.lines
      rw [List.tail_cons, Pin.readField_fields]
      rfl
    · rw [Pin.value_scope, Pin.value_release, Option.getD_some,
        ← pin.checkoutOffline]
      unfold Pin.table tableOf
      rw [Pin.keys_fields]
    · exact {
        repository := pin.value_repository
        scope := by rw [Pin.value_scope]; rfl
        release := by rw [Pin.value_release]; rfl
        repositoryForm := pin.repositoryForm
        sums := ⟨pin.sums, pin.value_sums, pin.sumsForm⟩
        releaseForm := pin.releaseForm
        scopeForm := by rw [Pin.value_scope]; exact pin.scopeForm
        checkout := by
          have hOffline := pin.checkoutOffline
          rw [Pin.value_checkout]
          unfold Pin.pinned
          cases hCheckout : pin.checkout with
          | none =>
              rw [hCheckout] at hOffline
              rw [if_neg (of_decide_eq_false hOffline.symm)]
          | some checkout =>
              rw [hCheckout] at hOffline
              rw [if_pos (of_decide_eq_true hOffline.symm)]
              rfl
        checkoutForm := by
          intro hRelease
          have hForm := pin.checkoutForm
          have hOffline := pin.checkoutOffline
          have hRelease' : pin.release = offline := hRelease
          rw [decide_eq_true hRelease'] at hOffline
          unfold Pin.pinned
          cases hCheckout : pin.checkout with
          | none =>
              rw [hCheckout] at hOffline
              exact absurd hOffline Bool.false_ne_true
          | some checkout =>
              rw [hCheckout] at hForm
              exact hForm
        repositoryName := hName.repository
        scopeName := hName.scope
        scopedForm := by
          rw [Pin.value_scope]
          exact pin.scopedForm }

end Locks

end MicaBoards

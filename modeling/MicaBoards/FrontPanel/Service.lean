import MicaBoards.FrontPanel.InStep
import MicaBoards.Foundations.Schedule
import MicaBoards.Foundations.Text

/-
  The service of the front panel (`bm201-front-panel`) on the
  driver: each second it reads the clock and the carriers, and
  writes the attributes that are to change. Behind it systemd
  runs `bm201-front-panel-stop`.

  What `date` and the carrier files give, whether the controls
  are there, and how often the board has slept meanwhile is
  part of each turn. A write succeeds if the control is there
  and its store returns no error.

  Key definitions include:
    * `Service`, `updatePanel`, `serviceStep`
    * `serviceCalled`, `frontPanelStop`
  Main declarations:
    * `service_shows`
-/

------------------------------------------------------------
-- Words
------------------------------------------------------------

namespace MicaBoards

namespace FrontPanel

/- What `$(...)` leaves of an output. -/
def stripNewlines (output : List UInt8) : List UInt8 :=
  (output.reverse.dropWhile (· = 0x0a)).reverse

/- `${clock% *}` -/
def beforeLastSpace (clock : List UInt8) : List UInt8 :=
  match clock.reverse.dropWhile (· ≠ 0x20) with
  | [] => clock
  | _ :: rest => rest.reverse

/- `${clock##* }` -/
def afterLastSpace (clock : List UInt8) : List UInt8 :=
  (clock.reverse.takeWhile (· ≠ 0x20)).reverse

/- `[0-9]`, or fewer digits -/
def inDigits (last c : UInt8) : Bool :=
  decide (0x30 ≤ c) && decide (c ≤ last)

/- `[01][0-9][0-5][0-9] | 2[0-3][0-5][0-9]` -/
def isPanelText : List UInt8 → Bool
| [a, b, c, d] =>
    (inDigits 0x31 a && inDigits 0x39 b ||
        decide (a = 0x32) && inDigits 0x33 b) &&
      inDigits 0x35 c && inDigits 0x39 d
| _ => false

/- `[0-5][0-9] | 60` -/
def isSecond : List UInt8 → Bool
| [a, b] =>
    inDigits 0x35 a && inDigits 0x39 b ||
      decide (a = 0x36) && decide (b = 0x30)
| _ => false

/- `*[02468]` -/
def isEven (second : List UInt8) : Bool :=
  match second.getLast? with
  | some c =>
      decide (c = 0x30) || decide (c = 0x32) ||
        decide (c = 0x34) || decide (c = 0x36) ||
        decide (c = 0x38)
  | none => false

/- A digit of `%x`. -/
def hexDigit (n : UInt8) : UInt8 :=
  if n < 10 then 0x30 + n else 0x57 + n

/- `0x%02x` -/
def hexText (symbols : UInt8) : List UInt8 :=
  [0x30, 0x78, hexDigit (symbols >>> 4),
    hexDigit (symbols &&& 0x0f)]

------------------------------------------------------------
-- The Service
------------------------------------------------------------

/-
  A turn of the loop: whether the controls are there, the zone
  file if it can be read, the output of `date` for a zone or
  without one, and that of `cat` on the carrier files; whether
  the two controls are there when they are written; the states
  of the controller that sleeps have left, before each write
  and after them; and whether `sleep` succeeds.
-/
structure Turn where
  present : Bool
  zone : Option (List UInt8)
  date : Option (List UInt8) → Option (List UInt8)
  eth0 : Option (List UInt8)
  p2p0 : Option (List UInt8)
  textThere : Bool
  symbolsThere : Bool
  early : List Controller
  between : List Controller
  late : List Controller
  sleeps : Bool

/- `update_error`, the warning of the start, and `usage` -/
inductive Warning where
| controlsUnavailable
| clockUnavailable
| usage
deriving DecidableEq, Repr

/- How the service ends, with its status. -/
structure Ended where
  status : Nat
  warning : Option Warning
deriving DecidableEq, Repr

/- The panel, and the variables of the service. -/
structure Service where
  world : World
  lastText : List UInt8
  lastSymbols : List UInt8
  iteration : Nat
  ended : Option Ended

/- A sleep: the driver suspends, and resumes. -/
def World.sleep (world : World) (left : Controller) : World where
  panel := world.panel
  controller := left.run (ht1628Resume world.panel)
  suspended := false

def World.sleepAll
    (world : World)
    (left : List Controller) : World :=
  left.foldl World.sleep world

/- `write_control`, and whether it succeeds. -/
def writeControl
    (kernel : Kernel)
    (world : World)
    (attr : DeviceAttr)
    (there : Bool)
    (value : List UInt8) : World × Bool :=
  if there then
    let stored := attr.store kernel world.panel (value ++ [0x0a])
    (world.perform stored, decide (0 ≤ stored.result))
  else
    (world, false)

/- `carrier_is_up` -/
def carrierIsUp (file : Option (List UInt8)) : Bool :=
  decide (stripNewlines (file.getD []) = [0x31])

/- The clock of a turn, empty when `date` fails. -/
def Turn.clock (turn : Turn) : List UInt8 :=
  stripNewlines ((turn.date (turn.zone.map stripNewlines)).getD [])

def Turn.panelText (turn : Turn) : List UInt8 :=
  beforeLastSpace turn.clock

def Turn.second (turn : Turn) : List UInt8 :=
  afterLastSpace turn.clock

/- The symbols of a turn. -/
def Turn.symbols (turn : Turn) : UInt8 :=
  let symbols : UInt8 := 4
  let symbols :=
    if carrierIsUp turn.eth0 then symbols ||| 0x09 else symbols
  let symbols :=
    if carrierIsUp turn.p2p0 then symbols ||| 0x60 else symbols
  if isEven turn.second then symbols ||| 0x90 else symbols

/- The first write of `update_panel`, when the text differs. -/
def updateText
    (kernel : Kernel)
    (service : Service)
    (turn : Turn) : Service × Bool :=
  if turn.panelText = service.lastText then
    (service, true)
  else
    let written :=
      writeControl kernel service.world .text turn.textThere
        turn.panelText
    if written.2 then
      ({ service with
          world := written.1
          lastText := turn.panelText }, true)
    else
      ({ service with world := written.1 }, false)

/- The second. -/
def updateSymbols
    (kernel : Kernel)
    (service : Service)
    (turn : Turn) : Service × Bool :=
  let formattedSymbols := hexText turn.symbols
  if formattedSymbols = service.lastSymbols then
    (service, true)
  else
    let written :=
      writeControl kernel service.world .symbols
        turn.symbolsThere formattedSymbols
    if written.2 then
      ({ service with
          world := written.1
          lastSymbols := formattedSymbols }, true)
    else
      ({ service with world := written.1 }, false)

/- The board sleeps while the service is where it is. -/
def Service.sleepAll
    (service : Service)
    (left : List Controller) : Service :=
  { service with world := service.world.sleepAll left }

/- `update_panel`, with the error it sets. -/
def updatePanel
    (kernel : Kernel)
    (service : Service)
    (turn : Turn) : Service × Option Warning :=
  let service := service.sleepAll turn.early
  if turn.present = false then
    (service, some .controlsUnavailable)
  else if isPanelText turn.panelText = false then
    (service, some .clockUnavailable)
  else if isSecond turn.second = false then
    (service, some .clockUnavailable)
  else
    let text := updateText kernel service turn
    if text.2 = false then
      (text.1, some .controlsUnavailable)
    else
      let service := text.1.sleepAll turn.between
      let symbols := updateSymbols kernel service turn
      if symbols.2 = false then
        (symbols.1, some .controlsUnavailable)
      else
        (symbols.1, none)

/- The end of the service behind its arguments -/
def Service.finish
    (service : Service)
    (warning : Option Warning) : Service :=
  { service with ended := some ⟨0, warning⟩ }

/- The loop behind `update_panel`. -/
def Service.goOn
    (service : Service)
    (limit : Option Nat)
    (turn : Turn) : Service :=
  let service :=
    { service with iteration := service.iteration + 1 }
  let reached :=
    match limit with
    | some limit => decide (limit ≤ service.iteration)
    | none => false
  if reached then service.finish none
  else if turn.sleeps then service.sleepAll turn.late
  else service.finish none

/- A turn of the loop, until the service has ended. -/
def serviceStep
    (kernel : Kernel)
    (limit : Option Nat)
    (service : Service)
    (turn : Turn) : Service :=
  match service.ended with
  | some _ => service
  | none =>
      match updatePanel kernel service turn with
      | (service, some warning) => service.finish (some warning)
      | (service, none) => service.goOn limit turn

/-
  The service before its loop: it sets the brightness, and
  turns the display on.
-/
def serviceStart
    (kernel : Kernel)
    (world : World)
    (present brightnessThere enabledThere : Bool) : Service :=
  let start (world : World) : Service := ⟨world, [], [], 0, none⟩
  if present = false then
    (start world).finish (some .controlsUnavailable)
  else
    let brightness :=
      writeControl kernel world .brightness brightnessThere [0x37]
    if brightness.2 = false then
      (start brightness.1).finish (some .controlsUnavailable)
    else
      let enabled :=
        writeControl kernel brightness.1 .enabled enabledThere
          [0x31]
      if enabled.2 = false then
        (start enabled.1).finish (some .controlsUnavailable)
      else
        start enabled.1

/- Whether the arguments ask for one turn, if they are right -/
def serviceOnce (args : List Bytes) : Option Bool :=
  match args with
  | [] => some false
  | [argument] =>
      if argument = ascii "--once" then some true else none
  | _ => none

/- `iteration_limit`, with what a test may have set -/
def iterationLimit
    (args : List Bytes)
    (iterations : Option Nat) : Option Nat :=
  if serviceOnce args = some true then some 1 else iterations

/- The service as it is called. -/
def serviceCalled
    (args : List Bytes)
    (kernel : Kernel)
    (world : World)
    (present brightnessThere enabledThere : Bool) : Service :=
  match serviceOnce args with
  | some _ =>
      serviceStart kernel world present brightnessThere
        enabledThere
  | none => ⟨world, [], [], 0, some ⟨2, some .usage⟩⟩

/-
  `bm201-front-panel-stop`, which ends with status 0 whether or
  not the control is there
-/
def frontPanelStop
    (kernel : Kernel)
    (world : World)
    (there : Bool) : World :=
  (writeControl kernel world .enabled there [0x30]).1

------------------------------------------------------------
-- The Kernel
------------------------------------------------------------

/-
  What the service relies on: the 7-segment table has the
  ASCII characters, and numbers are parsed with their prefix
  and a newline at their end.
-/
structure Kernel.Documented (kernel : Kernel) : Prop where
  segments : ∀ c, c < 0x80 → 0 ≤ kernel.mapToSeg7 c
  symbols : ∀ symbols,
    kernel.kstrtou8 (hexText symbols ++ [0x0a]) = .ok symbols
  brightness : kernel.kstrtou8 [0x37, 0x0a] = .ok 7
  enable : kernel.kstrtobool [0x31, 0x0a] = .ok true
  disable : kernel.kstrtobool [0x30, 0x0a] = .ok false

theorem stripNewline_newline (text : List UInt8) :
    stripNewline (text ++ [0x0a]) = text := by
  simp [stripNewline]

/- A text of ASCII characters has segments. -/
theorem mapText_of_ascii
    {kernel : Kernel}
    (hKernel : kernel.Documented)
    {text : List UInt8}
    (hText : ∀ c ∈ text, 0x20 ≤ c ∧ c ≤ 0x7e) :
    mapText kernel text =
      .ok (text.map fun c => UInt8.ofInt (kernel.mapToSeg7 c)) := by
  induction text with
  | nil => rfl
  | cons c text ih =>
      rcases hText c (.head _) with ⟨hLow, hHigh⟩
      have hChar : ¬ (c < 0x20 ∨ 0x7e < c) := by
        rw [not_or, UInt8.not_lt, UInt8.not_lt]
        exact ⟨hLow, hHigh⟩
      have hMapped : ¬ kernel.mapToSeg7 c < 0 :=
        Int.not_lt.mpr
          (hKernel.segments c
            (UInt8.lt_of_le_of_lt hHigh (by decide)))
      rw [mapText, if_neg hChar]
      simp only [if_neg hMapped]
      rw [ih fun d hMem => hText d (.tail _ hMem)]
      rfl

theorem inDigits_bounds
    {last c : UInt8}
    (hDigit : inDigits last c = true)
    (hLast : last ≤ 0x39) :
    0x20 ≤ c ∧ c ≤ 0x7e := by
  simp only [inDigits, Bool.and_eq_true, decide_eq_true_eq]
    at hDigit
  exact
    ⟨UInt8.le_trans (by decide) hDigit.1,
      UInt8.le_trans (UInt8.le_trans hDigit.2 hLast)
        (by decide)⟩

/- What the service writes is four characters. -/
theorem isPanelText_bounds
    {text : List UInt8}
    (hText : isPanelText text = true) :
    text.length = numDigits ∧
      ∀ c ∈ text, 0x20 ≤ c ∧ c ≤ 0x7e := by
  rcases text with _ | ⟨a, _ | ⟨b, _ | ⟨c, _ | ⟨d, _ | ⟨e, text⟩⟩⟩⟩⟩
  case cons.cons.cons.cons.nil =>
    refine ⟨rfl, ?_⟩
    simp only [isPanelText, Bool.and_eq_true, Bool.or_eq_true,
      decide_eq_true_eq] at hText
    rcases hText with ⟨⟨hHour, hTens⟩, hUnits⟩
    have hHours :
        (0x20 ≤ a ∧ a ≤ 0x7e) ∧ 0x20 ≤ b ∧ b ≤ 0x7e := by
      rcases hHour with ⟨hA, hB⟩ | ⟨rfl, hB⟩
      · exact
          ⟨inDigits_bounds hA (by decide),
            inDigits_bounds hB (by decide)⟩
      · exact ⟨by decide, inDigits_bounds hB (by decide)⟩
    intro e hMem
    simp only [List.mem_cons, List.not_mem_nil, or_false] at hMem
    rcases hMem with rfl | rfl | rfl | rfl
    · exact hHours.1
    · exact hHours.2
    · exact inDigits_bounds hTens (by decide)
    · exact inDigits_bounds hUnits (by decide)
  all_goals cases hText

/- The panel with a text. -/
def Ht1628Panel.withText
    (panel : Ht1628Panel)
    (kernel : Kernel)
    (text : List UInt8) : Ht1628Panel :=
  { panel with
    text := fun i => text.getD i 0x20
    digits := fun i =>
      (text.map fun c =>
        UInt8.ofInt (kernel.mapToSeg7 c)).getD i 0 }

------------------------------------------------------------
-- Writes
------------------------------------------------------------

variable {kernel : Kernel}
variable {world : World}

/- The world is the driver's, and awake. -/
def World.Driven (world : World) (kernel : Kernel) : Prop :=
  (∃ history, Run kernel history world) ∧
    world.suspended = false

/- A write keeps it so. -/
theorem World.Driven.writeControl
    (hDriven : world.Driven kernel)
    (attr : DeviceAttr)
    (there : Bool)
    (value : List UInt8) :
    (writeControl kernel world attr there value).1.Driven
      kernel := by
  unfold FrontPanel.writeControl
  rcases hDriven with ⟨⟨history, hRun⟩, hAwake⟩
  split_ifs
  · exact ⟨⟨_, .store attr _ hRun hAwake⟩, hAwake⟩
  · exact ⟨⟨history, hRun⟩, hAwake⟩

/- A sleep keeps what the driver has cached. -/
theorem World.sleep_panel
    (world : World)
    (left : Controller) :
    (world.sleep left).panel = world.panel := by
  simp only [World.sleep]

theorem World.Driven.sleepAll
    (hDriven : world.Driven kernel)
    (left : List Controller) :
    (world.sleepAll left).Driven kernel ∧
      (world.sleepAll left).panel = world.panel := by
  induction left generalizing world with
  | nil => exact ⟨hDriven, rfl⟩
  | cons first left ih =>
      rcases hDriven with ⟨⟨history, hRun⟩, hAwake⟩
      have hDown := Run.suspend hRun hAwake
      have hUp :
          Run kernel (.resume :: .suspend :: history)
            (world.sleep first) :=
        @Run.resume kernel _
          ⟨world.panel,
            world.controller.run (ht1628Suspend world.panel),
            true⟩
          first hDown rfl
      have hSlept : (world.sleep first).Driven kernel :=
        ⟨⟨_, hUp⟩, rfl⟩
      have hCons :
          world.sleepAll (first :: left) =
            (world.sleep first).sleepAll left :=
        List.foldl_cons
      rw [hCons, ← world.sleep_panel first]
      exact ih hSlept

/- A text is written unless its control is not there. -/
theorem writeControl_text
    (hKernel : kernel.Documented)
    (world : World)
    {text : List UInt8}
    (hText : isPanelText text = true) :
    (writeControl kernel world .text true text).1.panel =
      world.panel.withText kernel text := by
  rcases isPanelText_bounds hText with ⟨hLength, hAscii⟩
  have hShort : ¬ numDigits < text.length := by
    rw [hLength]
    exact Nat.lt_irrefl _
  simp only [writeControl, if_true, DeviceAttr.store, textStore,
    stripNewline_newline, if_neg hShort,
    mapText_of_ascii hKernel hAscii, World.perform]
  rfl

theorem writeControl_symbols
    (hKernel : kernel.Documented)
    (world : World)
    (symbols : UInt8) :
    (writeControl kernel world .symbols true
        (hexText symbols)).1.panel =
      { world.panel with symbols := symbols } := by
  simp only [writeControl, if_true, DeviceAttr.store,
    symbolsStore, hKernel.symbols, World.perform]

theorem writeControl_brightness
    (hKernel : kernel.Documented)
    (world : World) :
    (writeControl kernel world .brightness true [0x37]).1.panel =
      { world.panel with brightness := 7 } := by
  simp only [writeControl, if_true, DeviceAttr.store,
    brightnessStore, List.cons_append, List.nil_append,
    hKernel.brightness]
  rfl

theorem writeControl_enabled
    {value : UInt8}
    {enabled : Bool}
    (hParse : kernel.kstrtobool [value, 0x0a] = .ok enabled)
    (world : World) :
    (writeControl kernel world .enabled true [value]).1.panel =
      { world.panel with enabled := enabled } := by
  simp only [writeControl, if_true, DeviceAttr.store,
    enabledStore, List.cons_append, List.nil_append, hParse]
  rfl

/- A write that succeeds found its control. -/
theorem there_of_writeControl
    {attr : DeviceAttr}
    {there : Bool}
    {value : List UInt8}
    (hWritten :
      (writeControl kernel world attr there value).2 = true) :
    there = true := by
  cases there with
  | true => rfl
  | false => cases hWritten

------------------------------------------------------------
-- Turns
------------------------------------------------------------

/-
  The variables of the service are what the driver has got:
  nothing yet, or the last text and the last symbols.
-/
structure Service.Cached
    (service : Service)
    (kernel : Kernel) : Prop where
  driven : service.world.Driven kernel
  brightness : service.world.panel.brightness = 7
  enabled : service.world.panel.enabled = true
  text : service.lastText ≠ [] →
    service.world.panel =
      service.world.panel.withText kernel service.lastText
  symbols : service.lastSymbols ≠ [] →
    service.lastSymbols = hexText service.world.panel.symbols

/- The panel has the clock and the symbols of a turn. -/
structure Service.Has
    (service : Service)
    (kernel : Kernel)
    (turn : Turn) : Prop where
  clock : isPanelText turn.panelText = true
  second : isSecond turn.second = true
  text :
    service.world.panel =
      service.world.panel.withText kernel turn.panelText
  symbols : service.world.panel.symbols = turn.symbols

variable {service : Service}
variable {turn : Turn}

theorem Service.Cached.sleepAll
    (hCached : service.Cached kernel)
    (left : List Controller) :
    (service.sleepAll left).Cached kernel := by
  rcases hCached.driven.sleepAll left with ⟨hDriven, hPanel⟩
  unfold Service.sleepAll
  exact
    ⟨hDriven, hPanel ▸ hCached.brightness,
      hPanel ▸ hCached.enabled, hPanel ▸ hCached.text,
      hPanel ▸ hCached.symbols⟩

/- Different symbols have different texts, which are parsed. -/
theorem hexText_injective
    (hKernel : kernel.Documented) :
    Function.Injective hexText := by
  intro m n hSame
  have hParse := hKernel.symbols m
  rw [hSame, hKernel.symbols n] at hParse
  exact (Except.ok.inj hParse).symm

/- The text of the turn is written, or was the last one. -/
theorem Service.Cached.updateText
    (hKernel : kernel.Documented)
    (hCached : service.Cached kernel)
    (hText : isPanelText turn.panelText = true)
    (hDone : (updateText kernel service turn).2 = true) :
    let next := (updateText kernel service turn).1
    next.Cached kernel ∧
      next.world.panel =
        next.world.panel.withText kernel turn.panelText := by
  unfold FrontPanel.updateText at hDone ⊢
  have hSome : turn.panelText ≠ [] := by
    intro hNone
    rw [hNone] at hText
    cases hText
  by_cases hSame : turn.panelText = service.lastText
  · simp only [if_pos hSame]
    refine ⟨hCached, ?_⟩
    rw [hSame] at hSome ⊢
    exact hCached.text hSome
  · simp only [if_neg hSame] at hDone ⊢
    split_ifs at hDone ⊢ with hWritten
    have hThere := there_of_writeControl hWritten
    have hPanel :=
      writeControl_text hKernel service.world hText
    rw [hThere]
    refine
      ⟨⟨hCached.driven.writeControl .text true turn.panelText,
        ?_, ?_, fun _ => ?_, fun hSymbols => ?_⟩, ?_⟩
    all_goals simp only [hPanel]
    · exact hCached.brightness
    · exact hCached.enabled
    · rfl
    · exact hCached.symbols hSymbols
    · rfl

/- So are its symbols, and the text stays. -/
theorem Service.Cached.updateSymbols
    (hKernel : kernel.Documented)
    (hCached : service.Cached kernel)
    (hText :
      service.world.panel =
        service.world.panel.withText kernel turn.panelText)
    (hDone : (updateSymbols kernel service turn).2 = true) :
    let next := (updateSymbols kernel service turn).1
    next.Cached kernel ∧
      next.world.panel =
        next.world.panel.withText kernel turn.panelText ∧
      next.world.panel.symbols = turn.symbols := by
  unfold FrontPanel.updateSymbols at hDone ⊢
  by_cases hSame : hexText turn.symbols = service.lastSymbols
  · simp only [if_pos hSame]
    have hSymbols := hCached.symbols (hSame ▸ nofun)
    exact
      ⟨hCached, hText,
        hexText_injective hKernel (hSymbols.symm.trans hSame.symm)⟩
  · simp only [if_neg hSame] at hDone ⊢
    split_ifs at hDone ⊢ with hWritten
    have hThere := there_of_writeControl hWritten
    have hPanel :=
      writeControl_symbols hKernel service.world turn.symbols
    rw [hThere]
    refine
      ⟨⟨hCached.driven.writeControl .symbols true _,
        ?_, ?_, fun hBefore => ?_, fun _ => ?_⟩, ?_, ?_⟩
    all_goals simp only [hPanel]
    · exact hCached.brightness
    · exact hCached.enabled
    · exact congrArg
        (fun panel : Ht1628Panel =>
          { panel with symbols := turn.symbols })
        (hCached.text hBefore)
    · exact congrArg
        (fun panel : Ht1628Panel =>
          { panel with symbols := turn.symbols })
        hText

/- A turn without an error has been shown. -/
theorem Service.Cached.updatePanel
    (hKernel : kernel.Documented)
    (hCached : service.Cached kernel)
    (hDone : (updatePanel kernel service turn).2 = none) :
    let next := (updatePanel kernel service turn).1
    next.Cached kernel ∧ next.Has kernel turn := by
  have hEarly := hCached.sleepAll turn.early
  unfold FrontPanel.updatePanel at hDone ⊢
  simp only at hDone ⊢
  generalize service.sleepAll turn.early = early at hEarly hDone ⊢
  split_ifs at hDone ⊢ with hPresent hClock hSecond hText hSymbols
  rw [Bool.not_eq_false] at hClock hSecond hText hSymbols
  rcases hEarly.updateText hKernel hClock hText with
    ⟨hWritten, hPanel⟩
  have hBetween := hWritten.sleepAll turn.between
  rcases hWritten.driven.sleepAll turn.between with ⟨_, hSame⟩
  have hStays :
      ((FrontPanel.updateText kernel early turn).1.sleepAll
          turn.between).world.panel =
        (FrontPanel.updateText kernel early
          turn).1.world.panel :=
    hSame
  rcases hBetween.updateSymbols hKernel (hStays ▸ hPanel)
      hSymbols with
    ⟨hNext, hStill, hShown⟩
  exact ⟨hNext, hClock, hSecond, hStill, hShown⟩

------------------------------------------------------------
-- Runs
------------------------------------------------------------

/- In every run it ends with status 0, if it ends. -/
structure Service.Serves
    (service : Service)
    (kernel : Kernel) : Prop where
  driven : service.world.Driven kernel
  cached : service.ended = none → service.Cached kernel
  status : ∀ ended, service.ended = some ended → ended.status = 0

/- The world stays the driver's, also behind an error. -/
theorem driven_updateText
    (hDriven : service.world.Driven kernel) :
    (updateText kernel service turn).1.world.Driven kernel := by
  have hWritten :=
    hDriven.writeControl .text turn.textThere turn.panelText
  unfold updateText
  simp only
  split_ifs
  · exact hDriven
  · exact hWritten
  · exact hWritten

theorem driven_updateSymbols
    (hDriven : service.world.Driven kernel) :
    (updateSymbols kernel service turn).1.world.Driven
      kernel := by
  have hWritten :=
    hDriven.writeControl .symbols turn.symbolsThere
      (hexText turn.symbols)
  unfold updateSymbols
  simp only
  split_ifs
  · exact hDriven
  · exact hWritten
  · exact hWritten

theorem driven_updatePanel
    (hDriven : service.world.Driven kernel) :
    (updatePanel kernel service turn).1.world.Driven kernel := by
  have hEarly : (service.sleepAll turn.early).world.Driven kernel :=
    (hDriven.sleepAll turn.early).1
  have hText :
      (updateText kernel (service.sleepAll turn.early)
        turn).1.world.Driven kernel :=
    driven_updateText hEarly
  have hBetween := (hText.sleepAll turn.between).1
  unfold updatePanel
  simp only
  split_ifs
  · exact hEarly
  · exact hEarly
  · exact hEarly
  · exact hText
  · exact driven_updateSymbols hBetween
  · exact driven_updateSymbols hBetween

/- Only the loop ends the service. -/
theorem ended_updatePanel
    (service : Service)
    (turn : Turn) :
    (updatePanel kernel service turn).1.ended =
      service.ended := by
  have hText :
      ∀ service : Service,
        (updateText kernel service turn).1.ended =
          service.ended := by
    intro service
    unfold updateText
    simp only
    split_ifs <;> rfl
  have hSymbols :
      ∀ service : Service,
        (updateSymbols kernel service turn).1.ended =
          service.ended := by
    intro service
    unfold updateSymbols
    simp only
    split_ifs <;> rfl
  unfold updatePanel
  simp only
  split_ifs
  · rfl
  · rfl
  · rfl
  · exact hText _
  · exact (hSymbols _).trans (hText _)
  · exact (hSymbols _).trans (hText _)

/- The end of the loop leaves the panel as it is. -/
theorem Service.Serves.finish
    (hDriven : service.world.Driven kernel)
    (warning : Option Warning) :
    (service.finish warning).Serves kernel := by
  refine ⟨hDriven, nofun, ?_⟩
  intro ended hEnded
  rw [Service.finish, Option.some.injEq] at hEnded
  rw [← hEnded]

/- Nor does the rest of a turn. -/
theorem Service.goOn_cases
    (service : Service)
    (limit : Option Nat)
    (turn : Turn) :
    ∃ left ended,
      service.goOn limit turn =
          { service.sleepAll left with
            iteration := service.iteration + 1
            ended := ended } ∧
        (ended = service.ended ∨ ended = some ⟨0, none⟩) := by
  unfold Service.goOn
  simp only
  split_ifs
  · exact ⟨[], _, rfl, .inr rfl⟩
  · exact ⟨turn.late, _, rfl, .inl rfl⟩
  · exact ⟨[], _, rfl, .inr rfl⟩

theorem Service.Cached.goOn
    (hCached : service.Cached kernel)
    (hHas : service.Has kernel turn)
    (hOn : service.ended = none)
    (limit : Option Nat) :
    let next := service.goOn limit turn
    next.Serves kernel ∧
      next.Has kernel turn ∧
      next.world.panel.brightness = 7 ∧
      next.world.panel.enabled = true := by
  rcases service.goOn_cases limit turn with
    ⟨left, ended, hGoes, hEnds⟩
  have hSlept := hCached.sleepAll left
  have hPanel :
      (service.sleepAll left).world.panel = service.world.panel :=
    (hCached.driven.sleepAll left).2
  simp only [hGoes]
  refine
    ⟨⟨hSlept.driven, fun _ => ?_, fun last hLast => ?_⟩,
      ⟨hHas.clock, hHas.second, hPanel ▸ hHas.text,
        hPanel ▸ hHas.symbols⟩,
      hSlept.brightness, hSlept.enabled⟩
  · exact
      ⟨hSlept.driven, hSlept.brightness, hSlept.enabled,
        hSlept.text, hSlept.symbols⟩
  · have hLast : ended = some last := hLast
    rw [hLast, hOn] at hEnds
    rcases hEnds with hNone | hSome
    · cases hNone
    · rw [Option.some.injEq] at hSome
      rw [hSome]

/-
  A turn, also the last one: when it sets no warning, the
  panel has what it has read.
-/
theorem Service.Serves.step
    (hKernel : kernel.Documented)
    (hServes : service.Serves kernel)
    (limit : Option Nat)
    (turn : Turn) :
    let next := serviceStep kernel limit service turn
    next.Serves kernel ∧
      (service.ended = none →
        (∀ ended, next.ended = some ended →
          ended.warning = none) →
        next.Has kernel turn ∧
          next.world.panel.brightness = 7 ∧
          next.world.panel.enabled = true) := by
  unfold serviceStep
  cases hEnded : service.ended with
  | some ended => exact ⟨hServes, nofun⟩
  | none =>
      have hDriven :=
        @driven_updatePanel kernel service turn hServes.driven
      have hShown :=
        @Service.Cached.updatePanel kernel service turn hKernel
          (hServes.cached hEnded)
      cases hNext : updatePanel kernel service turn with
      | mk next warning =>
          rw [hNext] at hDriven hShown
          cases warning with
          | some warning =>
              refine ⟨.finish hDriven (some warning), ?_⟩
              intro _ hWell
              cases hWell _ rfl
          | none =>
              rcases hShown rfl with ⟨hCached, hHas⟩
              have hOn : next.ended = none := by
                have hStays := @ended_updatePanel kernel service turn
                rw [hNext, hEnded] at hStays
                exact hStays
              have hLast := hCached.goOn hHas hOn limit
              exact ⟨hLast.1, fun _ _ => hLast.2⟩

/- The start, when it comes to the loop. -/
theorem serves_serviceStart
    (hKernel : kernel.Documented)
    (hDriven : world.Driven kernel)
    (present brightnessThere enabledThere : Bool) :
    (serviceStart kernel world present brightnessThere
      enabledThere).Serves kernel := by
  have hBrightness :=
    hDriven.writeControl .brightness brightnessThere [0x37]
  have hEnabled :=
    hBrightness.writeControl .enabled enabledThere [0x31]
  unfold serviceStart
  simp only
  split_ifs with hPresent hBright hEnable
  · exact .finish hDriven _
  · exact .finish hBrightness _
  · exact .finish hEnabled _
  · rw [Bool.not_eq_false] at hBright hEnable
    have hThere := there_of_writeControl hBright
    have hThereToo := there_of_writeControl hEnable
    subst hThere hThereToo
    refine ⟨hEnabled, fun _ => ⟨hEnabled, ?_, ?_, ?_, ?_⟩, nofun⟩
    · simp only [writeControl_enabled hKernel.enable,
        writeControl_brightness hKernel]
    · simp only [writeControl_enabled hKernel.enable]
    · exact fun h => absurd rfl h
    · exact fun h => absurd rfl h

theorem serves_run
    (hKernel : kernel.Documented)
    (hServes : service.Serves kernel)
    (limit : Option Nat)
    (turns : List Turn) :
    (Schedule.run (serviceStep kernel limit) service
      turns).Serves kernel := by
  refine
    @Schedule.Along.invariant _ _ (serviceStep kernel limit) _
      (fun service => service.Serves kernel) ?_ _ _
      (Schedule.along_true service turns) hServes
  exact fun _ turn hNow _ => (hNow.step hKernel limit turn).1

------------------------------------------------------------
-- The Glass
------------------------------------------------------------

/- What the controller displays is the clock of a turn. -/
structure Turn.Shown
    (turn : Turn)
    (kernel : Kernel)
    (registers : Registers) : Prop where
  clock : isPanelText turn.panelText = true
  second : isSecond turn.second = true
  digits : ∀ i : Fin numDigits,
    registers.ram (digitRam i) =
      (turn.panelText.map fun c =>
        UInt8.ofInt (kernel.mapToSeg7 c)).getD i 0
  symbols : registers.ram symbolsRam = turn.symbols
  blank : ∀ a, (∀ i, a ≠ digitRam i) → a ≠ symbolsRam →
    registers.ram a = 0
  brightness : registers.brightness = 7
  on : registers.on = true

/- A service that has ended takes no turn. -/
theorem run_of_ended
    {ended : Ended}
    (hEnded : service.ended = some ended)
    (limit : Option Nat)
    (turns : List Turn) :
    Schedule.run (serviceStep kernel limit) service turns =
      service := by
  induction turns with
  | nil => rfl
  | cons turn turns ih =>
      rw [Schedule.run_cons, serviceStep, hEnded]
      exact ih

/- The stop script, when it finds the control. -/
theorem off_frontPanelStop
    (hKernel : kernel.Documented)
    (hDriven : world.Driven kernel) :
    (frontPanelStop kernel world
      true).controller.core.registers.on = false := by
  rcases hDriven.writeControl .enabled true [0x30] with
    ⟨⟨history, hRun⟩, hAwake⟩
  have hStep := (settled_of_run hRun).inStep
  rw [writeControl_enabled hKernel.disable world,
    Bool.false_and] at hStep
  exact hStep.on

/- What the panel has is on the glass while it is awake. -/
theorem Service.Has.shown
    (hHas : service.Has kernel turn)
    (hDriven : service.world.Driven kernel)
    (hBright : service.world.panel.brightness = 7)
    (hEnabled : service.world.panel.enabled = true) :
    turn.Shown kernel
      service.world.controller.core.registers := by
  rcases hDriven with ⟨⟨history, hRun⟩, hAwake⟩
  have hStep := (settled_of_run hRun).inStep
  rw [hAwake, hEnabled] at hStep
  have hDigits :
      service.world.panel.digits =
        fun i : Fin numDigits =>
          (turn.panelText.map fun c =>
            UInt8.ofInt (kernel.mapToSeg7 c)).getD i 0 :=
    congrArg Ht1628Panel.digits hHas.text
  exact
    ⟨hHas.clock, hHas.second,
      fun i => (hStep.digits i).trans (congrFun hDigits i),
      hStep.symbols.trans hHas.symbols, hStep.blank,
      hStep.brightness.trans hBright, hStep.on⟩

/-
  After every turn that sets no warning the display shows the
  clock and the links that the turn has read, though only
  changes are written, and however often the board has slept.
  A service that was called wrongly ends with status 2 and
  writes nothing, every other with 0. Behind it the stop script
  turns the display off if it finds the control, and else
  leaves it as it is.
-/
theorem service_shows
    (hKernel : kernel.Documented)
    {history : List Operation}
    (hRun : Run kernel history world)
    (hAwake : world.suspended = false)
    (args : List Bytes)
    (present brightnessThere enabledThere : Bool)
    (iterations : Option Nat)
    (turns : List Turn)
    (turn : Turn) :
    let limit := iterationLimit args iterations
    let before :=
      Schedule.run (serviceStep kernel limit)
        (serviceCalled args kernel world present brightnessThere
          enabledThere)
        turns
    let service := serviceStep kernel limit before turn
    (before.ended = none →
      (∀ ended, service.ended = some ended →
        ended.warning = none) →
      turn.Shown kernel
        service.world.controller.core.registers) ∧
    (args = [] ∨ args = [ascii "--once"] →
      ∀ ended, service.ended = some ended → ended.status = 0) ∧
    (¬ (args = [] ∨ args = [ascii "--once"]) →
      service.world = world ∧
        service.ended = some ⟨2, some .usage⟩) ∧
    (frontPanelStop kernel service.world
      true).controller.core.registers.on = false ∧
    frontPanelStop kernel service.world false =
      service.world := by
  have hDriven : world.Driven kernel :=
    ⟨⟨history, hRun⟩, hAwake⟩
  have hArgs :
      serviceOnce args = none ↔
        ¬ (args = [] ∨ args = [ascii "--once"]) := by
    rcases args with _ | ⟨argument, _ | ⟨other, rest⟩⟩
    · simp [serviceOnce]
    · simp [serviceOnce]
    · simp [serviceOnce]
  intro limit before service
  cases hOnce : serviceOnce args with
  | none =>
      have hCalled :
          (serviceCalled args kernel world present
            brightnessThere enabledThere) =
            ⟨world, [], [], 0, some ⟨2, some .usage⟩⟩ := by
        rw [serviceCalled, hOnce]
      have hBefore : before = _ :=
        (congrArg
          (fun start =>
            Schedule.run (serviceStep kernel limit) start turns)
          hCalled).trans
          (run_of_ended rfl limit turns)
      have hService : service = before := by
        show serviceStep kernel limit before turn = before
        rw [hBefore]
        rfl
      rw [hService, hBefore]
      exact
        ⟨nofun, fun hRight => absurd hRight (hArgs.mp hOnce),
          fun _ => ⟨rfl, rfl⟩,
          off_frontPanelStop hKernel hDriven, rfl⟩
  | some once =>
      have hRight : args = [] ∨ args = [ascii "--once"] := by
        by_contra hWrong
        rw [hArgs.mpr hWrong] at hOnce
        cases hOnce
      have hStart :
          (serviceCalled args kernel world present
            brightnessThere enabledThere).Serves kernel := by
        rw [serviceCalled, hOnce]
        exact serves_serviceStart hKernel hDriven _ _ _
      have hBefore : before.Serves kernel :=
        serves_run hKernel hStart limit turns
      rcases hBefore.step hKernel limit turn with ⟨hNow, hShows⟩
      change service.Serves kernel at hNow
      refine
        ⟨fun hOn hWell => ?_, fun _ => hNow.status,
          fun hWrong => absurd hRight hWrong,
          off_frontPanelStop hKernel hNow.driven, rfl⟩
      rcases hShows hOn hWell with ⟨hHas, hBright, hEnabled⟩
      exact hHas.shown hNow.driven hBright hEnabled

/- The value of a digit of `%x`. -/
def hexValue (c : UInt8) : UInt8 :=
  if c < 0x57 then c - 0x30 else c - 0x57

/- A kernel that parses what the service writes. -/
def clockKernel : Kernel where
  mapToSeg7 := fun c => if c < 0x80 then 0x3f else -eInvalid
  kstrtou8 := fun buf =>
    match buf with
    | [0x30, 0x78, high, low, 0x0a] =>
        .ok (hexValue high <<< 4 ||| hexValue low)
    | [digit, 0x0a] => .ok (digit - 0x30)
    | _ => .error (-eInvalid)
  kstrtobool := fun buf =>
    match buf with
    | [digit, 0x0a] => .ok (decide (digit = 0x31))
    | _ => .error (-eInvalid)

theorem documented_clockKernel : clockKernel.Documented where
  segments c hAscii := by
    have hDigit : clockKernel.mapToSeg7 c = 0x3f := if_pos hAscii
    rw [hDigit]
    decide
  symbols symbols := by
    have hAll :
        ∀ n < 256,
          hexValue (hexDigit (UInt8.ofNat n >>> 4)) <<< 4 |||
              hexValue (hexDigit (UInt8.ofNat n &&& 0x0f)) =
            UInt8.ofNat n := by
      decide +kernel
    have hOne := hAll symbols.toNat symbols.toNat_lt
    rw [UInt8.ofNat_toNat] at hOne
    exact congrArg Except.ok hOne
  brightness := rfl
  enable := rfl
  disable := rfl

/- Half past twelve, with a cable in the port. -/
def noonTurn : Turn where
  present := true
  zone := none
  date := fun _ =>
    some [0x31, 0x32, 0x33, 0x30, 0x20, 0x30, 0x30, 0x0a]
  eth0 := some [0x31, 0x0a]
  p2p0 := none
  textThere := true
  symbolsThere := true
  early := []
  between := [strayController]
  late := [strayController]
  sleeps := true

def noonService : Service :=
  serviceStart clockKernel
    ⟨(ht1628Probe 0).panel,
      strayController.run (ht1628Probe 0).events, false⟩
    true true true

theorem service_shows_noon :
    noonTurn.Shown clockKernel
      (serviceStep clockKernel none noonService
        noonTurn).world.controller.core.registers := by
  have hStart : noonService.ended = none := by decide +kernel
  have hOn :
      (serviceStep clockKernel none noonService
        noonTurn).ended = none := by
    decide +kernel
  unfold noonService at hStart hOn ⊢
  have hShows :=
    service_shows documented_clockKernel (.probe strayController)
      rfl [] true true true none [] noonTurn
  have hLimit : iterationLimit [] none = none := rfl
  have hCalled : ∀ world,
      serviceCalled [] clockKernel world true true true =
        serviceStart clockKernel world true true true :=
    fun _ => rfl
  simp only [Schedule.run_nil, hLimit, hCalled] at hShows
  refine hShows.1 hStart fun ended hEnded => ?_
  rw [hOn] at hEnded
  cases hEnded

end FrontPanel

end MicaBoards

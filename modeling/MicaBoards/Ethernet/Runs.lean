import MicaBoards.Ethernet.HwinitMac

/-
  Runs of `hwinit-mac`: a turn of its loop is a visit to an
  interface, and when `ip` succeeds, one visit settles it.

  Key definitions include:
    * `placeIn`, `settled`, `commandsOf`
    * `visited`, `addressFor`
    * `Ip.Succeeds`

  Main declarations:
    * `assign_cases`
    * `net_calls`, `net_calls_all`
    * `address_mem_commands`
    * `calls_again`
-/

------------------------------------------------------------
-- What A Turn Of The Loop Does
------------------------------------------------------------

namespace MicaBoards

namespace Ethernet

open Text

/- Where an interface that is assigned is attached -/
def placeIn
    (sysdevices : Bytes)
    (name : Name)
    (value : Option Interface) :
    Option Bytes :=
  match value with
  | none => none
  | some iface =>
      if name.isEth ∧ iface.assignType = some addrRandom then
        iface.device.bind (topologyOf sysdevices)
      else none

section Turn

variable (host : Host)
variable (seed sysdevices : Bytes)

def settled (name : Name) (value : Option Interface) :
    Option Interface :=
  match placeIn sysdevices name value with
  | none => value
  | some topology =>
      value.map fun iface =>
        iface.commanded host.ip name
          (macOf host.md5 seed topology)

def commandsOf (name : Name) (value : Option Interface) :
    List Command :=
  match placeIn sysdevices name value with
  | none => []
  | some topology =>
      [.down name, .address name (macOf host.md5 seed topology)]

variable {host seed sysdevices}

theorem address_mem_commandsOf
    {other name : Name}
    {value : Option Interface}
    {mac : Bytes} :
    .address name mac ∈
        commandsOf host seed sysdevices other value ↔
      other = name ∧
        (placeIn sysdevices other value).map
          (macOf host.md5 seed) = some mac := by
  rw [commandsOf]
  cases placeIn sysdevices other value with
  | none => simp
  | some topology =>
      simp only [List.mem_cons, reduceCtorEq, List.not_mem_nil,
        or_false, false_or, Command.address.injEq,
        Option.map_some, Option.some_inj]
      rw [eq_comm, @eq_comm _ mac]

/- A turn says something at most, or sets an address. -/
theorem assign_cases (run : Run) (name : Name) :
    (placeIn sysdevices name (run.tree.net name) = none ∧
      ∃ texts,
        assign host seed sysdevices run name =
          { run with stderr := run.stderr ++ texts }) ∨
      ∃ topology,
        placeIn sysdevices name (run.tree.net name) =
            some topology ∧
          assign host seed sysdevices run name =
            setAddress host run name topology
              (macOf host.md5 seed topology) := by
  have hSilent : run =
      { run with stderr := run.stderr ++ [] } := by
    rw [List.append_nil]
  unfold assign placeIn
  by_cases hEth : name.isEth = true
  · rw [if_pos hEth]
    cases run.tree.net name with
    | none => exact .inl ⟨rfl, [], hSilent⟩
    | some iface =>
        dsimp only
        by_cases hRandom : iface.assignType = some addrRandom
        · rw [if_pos hRandom, if_pos ⟨hEth, hRandom⟩]
          cases iface.device with
          | none => exact .inl ⟨rfl, [_], rfl⟩
          | some dev =>
              dsimp only
              rw [Option.bind_some]
              cases topologyOf sysdevices dev with
              | none => exact .inl ⟨rfl, [_], rfl⟩
              | some topology => exact .inr ⟨_, rfl, rfl⟩
        · rw [if_neg hRandom, if_neg fun hBoth =>
            hRandom hBoth.2]
          exact .inl ⟨rfl, [], hSilent⟩
  · rw [if_neg hEth]
    refine .inl ⟨?_, [], hSilent⟩
    cases run.tree.net name with
    | none => rfl
    | some iface => exact if_neg fun hBoth => hEth hBoth.1

/- A turn as a visit to its interface -/
theorem assign_visit (run : Run) (name : Name) :
    (assign host seed sysdevices run name).tree.net =
        Settling.visit (settled host seed sysdevices)
          run.tree.net name ∧
      (assign host seed sysdevices run name).tree.names =
        run.tree.names ∧
      (assign host seed sysdevices run name).tree.devices =
        run.tree.devices ∧
      (assign host seed sysdevices run name).commands =
        run.commands ++
          commandsOf host seed sysdevices name
            (run.tree.net name) := by
  rcases assign_cases run name with
    ⟨hPlace, texts, hAssign⟩ | ⟨topology, hPlace, hAssign⟩
  · rw [hAssign, commandsOf, hPlace, List.append_nil,
      Settling.visit_eq_self (by rw [settled, hPlace])]
    exact ⟨rfl, rfl, rfl, rfl⟩
  · rw [hAssign, commandsOf, hPlace, Settling.visit, settled,
      hPlace]
    exact ⟨rfl, rfl, rfl, rfl⟩

/- The loop as visits to its interfaces -/
theorem foldl_assign (names : List Name) (run : Run) :
    (names.foldl (assign host seed sysdevices) run).tree.net =
        Settling.visitAll (settled host seed sysdevices)
          run.tree.net names ∧
      (names.foldl (assign host seed sysdevices) run).tree.names =
        run.tree.names ∧
      (names.foldl (assign host seed sysdevices)
          run).tree.devices =
        run.tree.devices ∧
      (names.foldl (assign host seed sysdevices) run).commands =
        run.commands ++
          Settling.emitted (settled host seed sysdevices)
            (commandsOf host seed sysdevices)
            run.tree.net names := by
  induction names generalizing run with
  | nil => exact ⟨rfl, rfl, rfl, (List.append_nil _).symm⟩
  | cons name names ih =>
      rcases @assign_visit host seed sysdevices run name with
        ⟨hNet, hNames, hDevices, hCommands⟩
      rcases ih (assign host seed sysdevices run name) with
        ⟨hNet', hNames', hDevices', hCommands'⟩
      rw [List.foldl_cons, hNet', hNames', hDevices', hCommands',
        hNet, hNames, hDevices, hCommands, List.append_assoc]
      exact ⟨rfl, rfl, rfl, rfl⟩

------------------------------------------------------------
-- Settled Interfaces
------------------------------------------------------------

/- Every command succeeds. -/
structure Ip.Succeeds (ip : Ip) : Prop where
  down : ∀ name, ip.down name = true
  address : ∀ name mac, ip.address name mac = none

/- An interface as the program leaves it -/
def Interface.assigned (mac : Bytes) (iface : Interface) :
    Interface :=
  { iface with
    up := false
    address := mac
    assignType := some addrSet }

variable (hIp : host.ip.Succeeds)

include hIp

theorem commanded_eq
    (name : Name)
    (mac : Bytes)
    (iface : Interface) :
    iface.commanded host.ip name mac = iface.assigned mac := by
  rw [Interface.commanded, hIp.down, hIp.address]
  rfl

/- A settled interface is not assigned again. -/
theorem placeIn_settled
    (name : Name)
    (value : Option Interface) :
    placeIn sysdevices name
      (settled host seed sysdevices name value) = none := by
  have hSet : ¬ (some addrSet = some addrRandom) := by decide
  cases hPlace : placeIn sysdevices name value with
  | none => rw [settled, hPlace, hPlace]
  | some topology =>
      rw [settled, hPlace]
      cases value with
      | none => rfl
      | some iface =>
          dsimp only [Option.map_some]
          rw [commanded_eq hIp]
          exact if_neg fun hBoth => hSet hBoth.2

theorem settled_settled
    (name : Name)
    (value : Option Interface) :
    settled host seed sysdevices name
        (settled host seed sysdevices name value) =
      settled host seed sysdevices name value := by
  rw [settled, placeIn_settled hIp]

theorem commandsOf_settled
    (name : Name)
    (value : Option Interface) :
    commandsOf host seed sysdevices name
      (settled host seed sysdevices name value) = [] := by
  rw [commandsOf, placeIn_settled hIp]

end Turn

------------------------------------------------------------
-- Calls
------------------------------------------------------------

/- The names that some calls go through -/
def visited
    (tree : Tree)
    (arguments : List (List Name)) :
    List Name :=
  arguments.flatMap (called tree)

theorem called_congr
    {tree other : Tree}
    (hNames : tree.names = other.names) :
    called tree = called other := by
  funext arguments
  rw [called, called, hNames]

variable {host : Host}
variable {seed sysdevices : Bytes}

/- Calls as visits to their interfaces -/
theorem calls_visits
    {run : Run}
    (hSeed : seedOf host = some seed)
    (hDevices : run.tree.devices = some sysdevices)
    (arguments : List (List Name)) :
    (calls host run arguments).tree.net =
        Settling.visitAll (settled host seed sysdevices)
          run.tree.net (visited run.tree arguments) ∧
      (calls host run arguments).tree.names = run.tree.names ∧
      (calls host run arguments).tree.devices =
        run.tree.devices ∧
      (calls host run arguments).commands =
        run.commands ++
          Settling.emitted (settled host seed sysdevices)
            (commandsOf host seed sysdevices)
            run.tree.net (visited run.tree arguments) := by
  induction arguments generalizing run with
  | nil => exact ⟨rfl, rfl, rfl, (List.append_nil _).symm⟩
  | cons names arguments ih =>
      have hCall :
          hwinitMac host run names =
            (called run.tree names).foldl
              (assign host seed sysdevices) run := by
        rw [hwinitMac, hSeed, hDevices]
      rcases @foldl_assign host seed sysdevices
        (called run.tree names) run with
        ⟨hNet, hNames, hDevices', hCommands⟩
      rw [← hCall] at hNet hNames hDevices' hCommands
      rcases ih (hDevices'.trans hDevices) with
        ⟨hNet', hNames', hDevices'', hCommands'⟩
      have hVisited :
          visited (hwinitMac host run names).tree arguments =
            visited run.tree arguments := by
        rw [visited, visited, called_congr hNames]
      have hCons :
          visited run.tree (names :: arguments) =
            called run.tree names ++
              visited run.tree arguments := rfl
      rw [hVisited, hNet] at hNet' hCommands'
      rw [calls, List.foldl_cons, ← calls, hNet', hNames',
        hDevices'', hCommands', hNames, hDevices', hCommands,
        List.append_assoc, hCons, Settling.visitAll_append,
        Settling.emitted_append]
      exact ⟨rfl, rfl, rfl, rfl⟩

/- Without a seed or devices, calls do nothing. -/
theorem calls_idle
    {run : Run}
    (hIdle : seedOf host = none ∨ run.tree.devices = none)
    (arguments : List (List Name)) :
    calls host run arguments = run := by
  induction arguments with
  | nil => rfl
  | cons names arguments ih =>
      have hCall : hwinitMac host run names = run := by
        rcases hIdle with hSeed | hDevices
        · rw [hwinitMac, hSeed]
        · rw [hwinitMac, hDevices]
          cases seedOf host <;> rfl
      rw [calls, List.foldl_cons, hCall]
      exact ih

------------------------------------------------------------
-- Runs
------------------------------------------------------------

/- Where an interface of a sysfs that is assigned is attached -/
def placeOf (tree : Tree) (name : Name) : Option Bytes :=
  match tree.devices with
  | none => none
  | some sysdevices =>
      placeIn sysdevices name (tree.net name)

/- The address that the program has for an interface -/
def addressFor
    (host : Host)
    (tree : Tree)
    (name : Name) :
    Option Bytes :=
  match seedOf host with
  | none => none
  | some seed =>
      (placeOf tree name).map (macOf host.md5 seed)

theorem addressFor_idle
    {tree : Tree}
    (hIdle : seedOf host = none ∨ tree.devices = none)
    (name : Name) :
    addressFor host tree name = none := by
  unfold addressFor placeOf
  rcases hIdle with hNone | hNone
  · rw [hNone]
  · rw [hNone]
    cases seedOf host <;> rfl

theorem addressFor_eq
    {tree : Tree}
    (hSeed : seedOf host = some seed)
    (hDevices : tree.devices = some sysdevices)
    (name : Name) :
    addressFor host tree name =
      (placeIn sysdevices name (tree.net name)).map
        (macOf host.md5 seed) := by
  unfold addressFor placeOf
  rw [hSeed, hDevices]

/- What it takes to have a place -/
theorem placeOf_eq_some
    {tree : Tree}
    {name : Name}
    {place : Bytes} :
    placeOf tree name = some place ↔
      ∃ sysdevices iface dev,
        tree.devices = some sysdevices ∧
          tree.net name = some iface ∧
            name.isEth = true ∧
              iface.assignType = some addrRandom ∧
                iface.device = some dev ∧
                  topologyOf sysdevices dev = some place := by
  unfold placeOf
  cases hDevices : tree.devices with
  | none => simp
  | some sysdevices =>
      cases hNet : tree.net name with
      | none => simp [placeIn]
      | some iface =>
          dsimp only [placeIn]
          constructor
          · intro hPlace
            split at hPlace
            · next hBoth =>
                rcases Option.bind_eq_some_iff.mp hPlace with
                  ⟨dev, hDev, hTopology⟩
                exact ⟨sysdevices, iface, dev, rfl, rfl, hBoth.1,
                  hBoth.2, hDev, hTopology⟩
            · cases hPlace
          · rintro ⟨_, _, dev, hSame, hIface, hEth, hRandom, hDev,
              hTopology⟩
            obtain rfl := Option.some.inj hSame
            obtain rfl := Option.some.inj hIface
            rw [if_pos ⟨hEth, hRandom⟩, hDev]
            exact hTopology

theorem addressFor_eq_some
    {tree : Tree}
    {name : Name}
    {mac : Bytes} :
    addressFor host tree name = some mac ↔
      ∃ seed place,
        seedOf host = some seed ∧
          placeOf tree name = some place ∧
            macOf host.md5 seed place = mac := by
  unfold addressFor
  cases seedOf host with
  | none => simp
  | some seed => simp

/- An address is that of an interface to go through. -/
theorem isSome_of_addressFor
    {tree : Tree}
    {name : Name}
    {mac : Bytes}
    (hMac : addressFor host tree name = some mac) :
    (tree.net name).isSome = true ∧ name.isEth = true := by
  rcases addressFor_eq_some.mp hMac with ⟨_, _, _, hPlace, _⟩
  rcases placeOf_eq_some.mp hPlace with
    ⟨_, _, _, _, hNet, hEth, _⟩
  refine ⟨?_, hEth⟩
  rw [hNet]
  rfl

section Success

variable (hIp : host.ip.Succeeds)

include hIp

/- What an interface is after a visit -/
theorem settled_eq
    {tree : Tree}
    (hSeed : seedOf host = some seed)
    (hDevices : tree.devices = some sysdevices)
    (name : Name) :
    settled host seed sysdevices name (tree.net name) =
      match addressFor host tree name with
      | none => tree.net name
      | some mac => (tree.net name).map (·.assigned mac) := by
  rw [addressFor_eq hSeed hDevices, settled]
  cases placeIn sysdevices name (tree.net name) with
  | none => rfl
  | some topology =>
      dsimp only [Option.map_some]
      congr 1
      funext iface
      exact commanded_eq hIp name _ iface

/-
  What an interface is in the end: visited or not, and with an
  address or not, in the sysfs at the start.
-/
theorem net_calls
    (run : Run)
    (arguments : List (List Name))
    (name : Name) :
    (calls host run arguments).tree.net name =
      if name ∈ visited run.tree arguments then
        match addressFor host run.tree name with
        | none => run.tree.net name
        | some mac =>
            (run.tree.net name).map (·.assigned mac)
      else run.tree.net name := by
  cases hSeed : seedOf host with
  | none =>
      rw [calls_idle (.inl hSeed),
        addressFor_idle (.inl hSeed), ite_self]
  | some seed =>
      cases hDevices : run.tree.devices with
      | none =>
          rw [calls_idle (.inr hDevices),
            addressFor_idle (.inr hDevices), ite_self]
      | some sysdevices =>
          rw [(calls_visits hSeed hDevices arguments).1,
            Settling.visitAll_apply (settled_settled hIp),
            settled_eq hIp hSeed hDevices]

/- The addresses that are set on the way -/
theorem address_mem_commands
    (run : Run)
    (arguments : List (List Name))
    (name : Name)
    (mac : Bytes) :
    .address name mac ∈ (calls host run arguments).commands ↔
      .address name mac ∈ run.commands ∨
        (name ∈ visited run.tree arguments ∧
          addressFor host run.tree name = some mac) := by
  cases hSeed : seedOf host with
  | none =>
      rw [calls_idle (.inl hSeed),
        addressFor_idle (.inl hSeed)]
      simp
  | some seed =>
      cases hDevices : run.tree.devices with
      | none =>
          rw [calls_idle (.inr hDevices),
            addressFor_idle (.inr hDevices)]
          simp
      | some sysdevices =>
          rw [(calls_visits hSeed hDevices arguments).2.2.2,
            List.mem_append,
            Settling.mem_emitted (commandsOf_settled hIp),
            addressFor_eq hSeed hDevices]
          simp only [address_mem_commandsOf]
          constructor
          · rintro (hMem | ⟨key, hKey, rfl, hMac⟩)
            · exact .inl hMem
            · exact .inr ⟨hKey, hMac⟩
          · rintro (hMem | ⟨hKey, hMac⟩)
            · exact .inl hMem
            · exact .inr ⟨name, hKey, rfl, hMac⟩

/- What an interface is after a run through all of them -/
theorem net_calls_all
    {run : Run}
    {arguments : List (List Name)}
    (hAll :
      ∀ name, (run.tree.net name).isSome = true →
        name.isEth = true → name ∈ visited run.tree arguments)
    (name : Name) :
    (calls host run arguments).tree.net name =
      match addressFor host run.tree name with
      | none => run.tree.net name
      | some mac => (run.tree.net name).map (·.assigned mac) := by
  rw [net_calls hIp]
  split
  · rfl
  · next hNever =>
      cases hMac : addressFor host run.tree name with
      | none => rfl
      | some mac =>
          rcases isSome_of_addressFor hMac with ⟨hThere, hEth⟩
          exact absurd (hAll name hThere hEth) hNever

/-
  After a run through all the interfaces there is nothing to
  do for any call.
-/
theorem calls_again
    {run : Run}
    {arguments : List (List Name)}
    (hAll :
      ∀ name, (run.tree.net name).isSome = true →
        name.isEth = true → name ∈ visited run.tree arguments)
    (more : List (List Name)) :
    (calls host (calls host run arguments) more).tree =
        (calls host run arguments).tree ∧
      (calls host (calls host run arguments) more).commands =
        (calls host run arguments).commands := by
  by_cases hIdle :
      seedOf host = none ∨ run.tree.devices = none
  · rw [calls_idle hIdle arguments, calls_idle hIdle more]
    exact ⟨rfl, rfl⟩
  · rcases not_or.mp hIdle with ⟨hSeed, hDevices⟩
    rcases Option.ne_none_iff_exists'.mp hSeed with
      ⟨seed, hSeed⟩
    rcases Option.ne_none_iff_exists'.mp hDevices with
      ⟨sysdevices, hDevices⟩
    rcases calls_visits hSeed hDevices arguments with
      ⟨hNet, _, hDevices', _⟩
    have hPlace (name : Name) :
        placeIn sysdevices name
          ((calls host run arguments).tree.net name) = none := by
      rw [hNet, Settling.visitAll_apply (settled_settled hIp)]
      split
      · exact placeIn_settled hIp _ _
      · next hNever =>
          cases hFound : run.tree.net name with
          | none => rfl
          | some iface =>
              refine if_neg fun hBoth => hNever ?_
              exact hAll name (by rw [hFound]; rfl) hBoth.1
    have hSettled (name : Name) :
        settled host seed sysdevices name
            ((calls host run arguments).tree.net name) =
          (calls host run arguments).tree.net name := by
      rw [settled, hPlace]
    have hSilent (name : Name) :
        commandsOf host seed sysdevices name
          ((calls host run arguments).tree.net name) = [] := by
      rw [commandsOf, hPlace]
    rcases calls_visits hSeed (hDevices'.trans hDevices) more with
      ⟨hNet'', hNames'', hDevices'', hCommands''⟩
    rw [Settling.visitAll_eq_self fun name _ => hSettled name]
      at hNet''
    rw [Settling.emitted_eq_nil (fun name _ => hSettled name)
      fun name _ => hSilent name, List.append_nil] at hCommands''
    exact ⟨Tree.ext hDevices'' hNames'' hNet'', hCommands''⟩

end Success

end Ethernet

end MicaBoards

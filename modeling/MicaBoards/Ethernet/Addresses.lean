import Mathlib.Logic.Equiv.Basic
import MicaBoards.Ethernet.Runs
import MicaBoards.Foundations.Blocks

/-
  The addresses that `hwinit-mac` gives to the ports of a
  board: which are distinct, and that they follow the port and
  not its name, the order or the kind of the calls.

  Key definitions include:
    * `AddressesDistinct`, `OnePerDevice`
    * `SamePorts`, `FollowPorts`

  Main declarations:
    * `addresses_distinct_iff`
    * `addresses_follow_ports`
-/

------------------------------------------------------------
-- Distinct Addresses
------------------------------------------------------------

namespace MicaBoards

namespace Ethernet

open Text

/- Nothing is done yet. -/
def start (tree : Tree) : Run where
  tree := tree
  commands := []
  stderr := []

/- No two interfaces are given one address. -/
def AddressesDistinct (commands : List Command) : Prop :=
  ∀ name other mac,
    .address name mac ∈ commands →
      .address other mac ∈ commands →
        name = other

/-
  Sums of what the calls hash differ in the digits that count.
-/
def SumsDistinct
    (host : Host)
    (tree : Tree)
    (arguments : List (List Name)) :
    Prop :=
  ∀ seed, seedOf host = some seed →
    ∀ name ∈ visited tree arguments,
      ∀ other ∈ visited tree arguments,
        ∀ place place',
          placeOf tree name = some place →
            placeOf tree other = some place' →
              truncated (host.md5.sum (hashed seed place)) =
                  truncated
                    (host.md5.sum (hashed seed place')) →
                hashed seed place = hashed seed place'

/-
  No two interfaces that the calls assign are attached to one
  device.
-/
def OnePerDevice
    (host : Host)
    (tree : Tree)
    (arguments : List (List Name)) :
    Prop :=
  (seedOf host).isSome = true →
    ∀ name ∈ visited tree arguments,
      ∀ other ∈ visited tree arguments,
        ∀ place,
          placeOf tree name = some place →
            placeOf tree other = some place →
              name = other

/- An address tells the digits of its sum. -/
theorem truncated_of_macText
    {sum other : Bytes}
    (hSum : sum.length = 32)
    (hOther : other.length = 32)
    (hSame : macText sum = macText other) :
    truncated sum = truncated other := by
  have hLength
      {digits : Bytes}
      (hDigits : digits.length = 32) :
      ∀ part ∈ truncated digits,
        (ascii ":" ++ part).length = 3 := by
    have hColon : (ascii ":").length = 1 := by decide
    intro part hPart
    rcases List.mem_map.mp hPart with ⟨k, hK, rfl⟩
    simp only [List.mem_cons, List.not_mem_nil, or_false] at hK
    rw [List.length_append, List.length_take, List.length_drop,
      hColon, hDigits]
    omega
  have hParts :=
    Blocks.map_eq_of_flatMap_eq (hLength hSum) (hLength hOther)
      rfl (List.append_cancel_left hSame)
  exact List.map_injective_iff.mpr
    (fun _ _ => List.append_cancel_left) hParts

/- One address is that of one place. -/
theorem place_of_macOf
    {host : Host}
    {tree : Tree}
    {arguments : List (List Name)}
    (hSums : SumsDistinct host tree arguments)
    {seed : Bytes}
    (hSeed : seedOf host = some seed)
    {name other : Name}
    (hName : name ∈ visited tree arguments)
    (hOther : other ∈ visited tree arguments)
    {place place' : Bytes}
    (hPlace : placeOf tree name = some place)
    (hPlace' : placeOf tree other = some place')
    (hSame :
      macOf host.md5 seed place = macOf host.md5 seed place') :
    place = place' := by
  have hDigits :=
    truncated_of_macText (host.md5.length_sum _)
      (host.md5.length_sum _) hSame
  have hHashed :=
    hSums seed hSeed name hName other hOther place place' hPlace
      hPlace' hDigits
  exact List.append_cancel_left hHashed

/-
  Some calls give distinct addresses exactly when no two of
  the interfaces that they assign hang off one device.
-/
theorem addresses_distinct_iff
    {host : Host}
    (hIp : host.ip.Succeeds)
    {tree : Tree}
    {arguments : List (List Name)}
    (hSums : SumsDistinct host tree arguments) :
    AddressesDistinct
        (calls host (start tree) arguments).commands ↔
      OnePerDevice host tree arguments := by
  have hMem (name : Name) (mac : Bytes) :
      .address name mac ∈
          (calls host (start tree) arguments).commands ↔
        name ∈ visited tree arguments ∧
          addressFor host tree name = some mac := by
    rw [address_mem_commands hIp]
    exact ⟨fun hEither => hEither.resolve_left
      List.not_mem_nil, .inr⟩
  constructor
  · intro hDistinct hSeed name hName other hOther place hPlace
      hPlace'
    rcases Option.isSome_iff_exists.mp hSeed with ⟨seed, hSeed⟩
    refine hDistinct name other (macOf host.md5 seed place)
      ((hMem _ _).mpr ⟨hName, ?_⟩) ((hMem _ _).mpr ⟨hOther, ?_⟩)
    · exact addressFor_eq_some.mpr
        ⟨seed, place, hSeed, hPlace, rfl⟩
    · exact addressFor_eq_some.mpr
        ⟨seed, place, hSeed, hPlace', rfl⟩
  · intro hOne name other mac hName hOther
    rcases (hMem _ _).mp hName with ⟨hName, hMac⟩
    rcases (hMem _ _).mp hOther with ⟨hOther, hMac'⟩
    rcases addressFor_eq_some.mp hMac with
      ⟨seed, place, hSeed, hPlace, hMac⟩
    rcases addressFor_eq_some.mp hMac' with
      ⟨seed', place', hSeed', hPlace', hMac'⟩
    obtain rfl := Option.some.inj (hSeed.symm.trans hSeed')
    have hSame :=
      place_of_macOf hSums hSeed hName hOther hPlace hPlace'
        (hMac.trans hMac'.symm)
    refine hOne (by rw [hSeed]; rfl) name hName other hOther
      place hPlace ?_
    rw [hSame]
    exact hPlace'

------------------------------------------------------------
-- The Ports Of The Board
------------------------------------------------------------

theorem isSpace_of_isDigit
    {digit : UInt8}
    (hDigit : isDigit digit = true) :
    isSpace digit = false ∧ digit ≠ 0x2f := by
  revert digit
  have hAll :
      ∀ b : UInt8, isDigit b = true →
        isSpace b = false ∧ b ≠ 0x2f :=
    forall_byte (by decide +kernel)
  exact fun {b} hDigit => hAll b hDigit

theorem eth_ne_nil (digit : UInt8) :
    ascii "eth" ++ [digit] ≠ [] := by
  simp

theorem eth_oneWord
    {digit : UInt8}
    (hDigit : isDigit digit = true) :
    ∀ b ∈ ascii "eth" ++ [digit],
      isSpace b = false ∧ b ≠ 0x2f := by
  have hEth : ∀ b ∈ ascii "eth",
      isSpace b = false ∧ b ≠ 0x2f :=
    forall_mem_of_all (by decide +kernel)
  intro b hb
  rcases List.mem_append.mp hb with hb | hb
  · exact hEth b hb
  · rw [List.mem_singleton.mp hb]
    exact isSpace_of_isDigit hDigit

def eth (digit : UInt8) (hDigit : isDigit digit = true) :
    Name where
  bytes := ascii "eth" ++ [digit]
  ne_nil := eth_ne_nil digit
  oneWord := eth_oneWord hDigit

theorem isDigit_zero : isDigit 0x30 = true := by decide

theorem isDigit_one : isDigit 0x31 = true := by decide

def eth0 : Name := eth 0x30 isDigit_zero

def eth1 : Name := eth 0x31 isDigit_one

theorem eth0_ne_eth1 : eth0 ≠ eth1 := by decide +kernel

def cid : Bytes :=
  ascii "0x15010041424344450" ++ ascii "123456789abcdef"

def gmac : Bytes := ascii "platform/2a220000.ethernet"

def pcie : Bytes :=
  ascii "platform/22000000.pcie/" ++
    ascii "pci0000:00/0000:00:00.0/0000:01:00.0"

/- The sums of what is hashed for these ports -/
def boardSum (bytes : Bytes) : Bytes :=
  if bytes = hashed cid gmac then
    ascii "071bc0f8a86b6d84" ++ ascii "d92077db06f5ff45"
  else if bytes = hashed cid pcie then
    ascii "5ccc6e7f8e1b7234" ++ ascii "4cc5922adb61596f"
  else List.replicate 32 0x30

theorem length_boardSum (bytes : Bytes) :
    (boardSum bytes).length = 32 := by
  unfold boardSum
  split
  · decide +kernel
  · split
    · decide +kernel
    · exact List.length_replicate

def boardIp : Ip where
  down _ := true
  address _ _ := none

theorem boardIp_succeeds : boardIp.Succeeds :=
  ⟨fun _ => rfl, fun _ _ => rfl⟩

def boardHost : Host where
  sysfs := ascii "/sys"
  conf := some (ascii "seed=/cid" ++ [lf])
  readable path :=
    if path = ascii "/cid" then some (cid ++ [lf]) else none
  ip := boardIp
  md5 := { sum := boardSum, length_sum := length_boardSum }

def randomPort (place address : Bytes) : Interface where
  assignType := some addrRandom
  device := some (ascii "/sys/devices/" ++ place)
  address := address
  up := true

def twoNets (first second : Bytes) (name : Name) :
    Option Interface :=
  if name = eth0 then some (randomPort first [])
  else if name = eth1 then some (randomPort second [])
  else none

theorem listed_twoNets
    (first second : Bytes)
    (name : Name)
    (hSome : (twoNets first second name).isSome = true) :
    name ∈ [eth0, eth1] := by
  unfold twoNets at hSome
  split at hSome
  · next hName => simp [hName]
  · split at hSome
    · next hName => simp [hName]
    · cases hSome

/- Two ports, at these places -/
def twoPorts (first second : Bytes) : Tree where
  devices := some (ascii "/sys/devices")
  names := [eth0, eth1]
  net := twoNets first second
  listed := listed_twoNets first second

theorem placeOf_twoPorts
    {first second : Bytes}
    {name : Name}
    {place : Bytes}
    (hPlace :
      placeOf (twoPorts first second) name = some place) :
    (name = eth0 ∧ place = first) ∨
      (name = eth1 ∧ place = second) := by
  have hSlash :
      ascii "/sys/devices" ++ ascii "/" = ascii "/sys/devices/" := by
    decide +kernel
  have hTopology
      {other : Bytes}
      (hOther :
        topologyOf (ascii "/sys/devices")
          (ascii "/sys/devices/" ++ other) = some place) :
      place = other := by
    unfold topologyOf at hOther
    rw [hSlash, List.drop_left] at hOther
    split at hOther
    · exact (Option.some.inj hOther).symm
    · cases hOther
  rcases placeOf_eq_some.mp hPlace with
    ⟨sysdevices, iface, dev, hDevices, hNet, _, _, hDev, hPlace⟩
  obtain rfl := Option.some.inj hDevices
  change twoNets first second name = some iface at hNet
  unfold twoNets at hNet
  split at hNet
  · next hName =>
      obtain rfl := Option.some.inj hNet
      obtain rfl := Option.some.inj hDev
      exact .inl ⟨hName, hTopology hPlace⟩
  · split at hNet
    · next hName =>
        obtain rfl := Option.some.inj hNet
        obtain rfl := Option.some.inj hDev
        exact .inr ⟨hName, hTopology hPlace⟩
    · cases hNet

theorem seedOf_boardHost : seedOf boardHost = some cid := by
  decide +kernel

theorem addresses_distinct_iff_board :
    AddressesDistinct
        (calls boardHost (start (twoPorts gmac pcie))
          [[]]).commands ↔
      OnePerDevice boardHost (twoPorts gmac pcie) [[]] := by
  refine addresses_distinct_iff boardIp_succeeds ?_
  have hSums :
      truncated (boardSum (hashed cid gmac)) ≠
        truncated (boardSum (hashed cid pcie)) := by
    decide +kernel
  intro seed hSeed name _ other _ place place' hPlace hPlace'
    hSame
  obtain rfl := Option.some.inj (seedOf_boardHost.symm.trans hSeed)
  rcases placeOf_twoPorts hPlace with ⟨_, rfl⟩ | ⟨_, rfl⟩ <;>
    rcases placeOf_twoPorts hPlace' with ⟨_, rfl⟩ | ⟨_, rfl⟩
  · rfl
  · exact absurd hSame hSums
  · exact absurd hSame.symm hSums
  · rfl

/- Two interfaces of one device are given one address. -/
theorem not_addressesDistinct_oneDevice :
    boardHost.ip.Succeeds ∧
      SumsDistinct boardHost (twoPorts gmac gmac) [[]] ∧
        ¬ AddressesDistinct
          (calls boardHost (start (twoPorts gmac gmac))
            [[]]).commands := by
  refine ⟨boardIp_succeeds, ?_, ?_⟩
  · intro seed _ name _ other _ place place' hPlace hPlace' _
    rcases placeOf_twoPorts hPlace with ⟨_, rfl⟩ | ⟨_, rfl⟩ <;>
      rcases placeOf_twoPorts hPlace' with ⟨_, rfl⟩ | ⟨_, rfl⟩ <;>
        rfl
  · have hBoth :
        .address eth0 (ascii "02:07:1b:c0:f8:a8") ∈
            (calls boardHost (start (twoPorts gmac gmac))
              [[]]).commands ∧
          .address eth1 (ascii "02:07:1b:c0:f8:a8") ∈
            (calls boardHost (start (twoPorts gmac gmac))
              [[]]).commands := by
      decide +kernel
    intro hDistinct
    exact eth0_ne_eth1
      (hDistinct eth0 eth1 _ hBoth.1 hBoth.2)

------------------------------------------------------------
-- Addresses Follow The Port
------------------------------------------------------------

/-
  Two sysfs with the same ports, whose `eth*` names are
  exchanged; what the kernel invented may differ.
-/
structure SamePorts
    (rename : Equiv.Perm Name)
    (tree tree' : Tree) :
    Prop where
  devices : tree.devices = tree'.devices
  isEth : ∀ name, (rename name).isEth = name.isEth
  isSome :
    ∀ name,
      (tree'.net (rename name)).isSome = (tree.net name).isSome
  port :
    ∀ name iface iface',
      tree.net name = some iface →
        tree'.net (rename name) = some iface' →
          iface.assignType = iface'.assignType ∧
            iface.device = iface'.device

theorem SamePorts.placeOf_rename
    {rename : Equiv.Perm Name}
    {tree tree' : Tree}
    (hPorts : SamePorts rename tree tree')
    (name : Name) :
    placeOf tree' (rename name) = placeOf tree name := by
  unfold placeOf
  rw [hPorts.devices]
  cases tree'.devices with
  | none => rfl
  | some sysdevices =>
      have hSome := hPorts.isSome name
      cases hNet : tree.net name with
      | none =>
          rw [hNet, Option.isSome_none,
            Option.isSome_eq_false_iff, Option.isNone_iff_eq_none]
            at hSome
          rw [hSome]
          rfl
      | some iface =>
          rw [hNet, Option.isSome_some] at hSome
          rcases Option.isSome_iff_exists.mp hSome with
            ⟨iface', hNet'⟩
          rcases hPorts.port name iface iface' hNet hNet' with
            ⟨hType, hDevice⟩
          rw [hNet']
          dsimp only [placeIn]
          rw [hPorts.isEth, hType, hDevice]

theorem SamePorts.addressFor_rename
    {rename : Equiv.Perm Name}
    {tree tree' : Tree}
    (hPorts : SamePorts rename tree tree')
    (host : Host)
    (name : Name) :
    addressFor host tree' (rename name) =
      addressFor host tree name := by
  unfold addressFor
  rw [hPorts.placeOf_rename]

/-
  An interface that is left alone: with an address that is not
  random, another name, or no device under `devices`.
-/
def LeftAlone
    (tree : Tree)
    (name : Name)
    (iface : Interface) :
    Prop :=
  iface.assignType ≠ some addrRandom ∨
    name.isEth = false ∨
      ∀ sysdevices ∈ tree.devices, ∀ dev ∈ iface.device,
        topologyOf sysdevices dev = none

theorem addressFor_leftAlone
    {host : Host}
    {tree : Tree}
    {name : Name}
    {iface : Interface}
    (hNet : tree.net name = some iface)
    (hAlone : LeftAlone tree name iface) :
    addressFor host tree name = none := by
  cases hMac : addressFor host tree name with
  | none => rfl
  | some mac =>
      rcases addressFor_eq_some.mp hMac with
        ⟨_, _, _, hPlace, _⟩
      rcases placeOf_eq_some.mp hPlace with
        ⟨sysdevices, found, dev, hDevices, hFound, hEth, hRandom,
          hDev, hTopology⟩
      obtain rfl := Option.some.inj (hNet.symm.trans hFound)
      rcases hAlone with hType | hName | hElsewhere
      · exact absurd hRandom hType
      · rw [hName] at hEth
        cases hEth
      · rw [hElsewhere sysdevices hDevices dev hDev] at hTopology
        cases hTopology

/-
  What is to hold of two runs: every port ends alike in both,
  with one address if it had one before or is given one; what
  is left alone is as it was; and nothing is left to do.
-/
structure FollowPorts
    (host : Host)
    (rename : Equiv.Perm Name)
    (tree tree' : Tree)
    (final final' : Run) :
    Prop where
  present :
    ∀ name,
      (final'.tree.net (rename name)).isSome =
        (final.tree.net name).isSome
  assignType :
    ∀ name port port',
      final.tree.net name = some port →
        final'.tree.net (rename name) = some port' →
          port.assignType = port'.assignType
  address :
    ∀ name first first' port port',
      tree.net name = some first →
        tree'.net (rename name) = some first' →
          final.tree.net name = some port →
            final'.tree.net (rename name) = some port' →
              (first.address = first'.address ∨
                  addressFor host tree name ≠ none) →
                port.address = port'.address
  leftAlone :
    ∀ name first,
      tree.net name = some first →
        LeftAlone tree name first →
          final.tree.net name = some first
  leftAlone' :
    ∀ name first,
      tree'.net name = some first →
        LeftAlone tree' name first →
          final'.tree.net name = some first
  again :
    ∀ more, (calls host final more).tree = final.tree
  again' :
    ∀ more, (calls host final' more).tree = final'.tree

/- What is there in the end was there, and may be assigned. -/
theorem exists_first
    {given : Option Bytes}
    {found : Option Interface}
    {port : Interface}
    (hPort :
      (match given with
        | none => found
        | some mac => found.map (·.assigned mac)) =
        some port) :
    ∃ first,
      found = some first ∧
        port = given.elim first (first.assigned ·) := by
  cases given with
  | none => exact ⟨port, hPort, rfl⟩
  | some mac =>
      rcases Option.map_eq_some_iff.mp hPort with
        ⟨first, hFirst, rfl⟩
      exact ⟨first, hFirst, rfl⟩

/-
  A sweep, and single calls for all the interfaces of a sysfs
  with the same ports under other names.
-/
theorem addresses_follow_ports
    {host : Host}
    (hIp : host.ip.Succeeds)
    {rename : Equiv.Perm Name}
    {tree tree' : Tree}
    (hPorts : SamePorts rename tree tree')
    {singles : List Name}
    (hAll :
      ∀ name, (tree'.net name).isSome = true →
        name.isEth = true → name ∈ singles) :
    FollowPorts host rename tree tree'
      (calls host (start tree) [[]])
      (calls host (start tree')
        (singles.map fun name => [name])) := by
  have hSweep :
      ∀ name, (tree.net name).isSome = true →
        name.isEth = true → name ∈ visited tree [[]] := by
    intro name hThere hEth
    refine List.mem_flatMap.mpr ⟨[], List.mem_cons_self, ?_⟩
    exact List.mem_filter.mpr ⟨tree.listed name hThere, hEth⟩
  have hSingles :
      ∀ name, (tree'.net name).isSome = true →
        name.isEth = true →
          name ∈ visited tree'
            (singles.map fun name => [name]) := by
    intro name hThere hEth
    refine List.mem_flatMap.mpr
      ⟨[name], List.mem_map_of_mem (hAll name hThere hEth), ?_⟩
    exact List.mem_singleton_self name
  have hFinal (name : Name) :=
    @net_calls_all host hIp (start tree) _ hSweep name
  have hFinal' (name : Name) :=
    @net_calls_all host hIp (start tree') _ hSingles name
  have hMac := hPorts.addressFor_rename host
  constructor
  · intro name
    rw [hFinal, hFinal', start, start, hMac]
    cases addressFor host tree name with
    | none => exact hPorts.isSome name
    | some mac =>
        dsimp only
        rw [Option.isSome_map, Option.isSome_map]
        exact hPorts.isSome name
  · intro name port port' hPort hPort'
    rw [hFinal, start] at hPort
    rw [hFinal', start, hMac] at hPort'
    rcases exists_first hPort with ⟨first, hFirst, rfl⟩
    rcases exists_first hPort' with ⟨first', hFirst', rfl⟩
    cases addressFor host tree name with
    | none =>
        exact (hPorts.port name first first' hFirst hFirst').1
    | some mac => rfl
  · intro name first first' port port' hFirst hFirst' hPort
      hPort' hEither
    rw [hFinal, start] at hPort
    rw [hFinal', start, hMac] at hPort'
    rcases exists_first hPort with ⟨_, hFound, rfl⟩
    rcases exists_first hPort' with ⟨_, hFound', rfl⟩
    obtain rfl := Option.some.inj (hFirst.symm.trans hFound)
    obtain rfl := Option.some.inj (hFirst'.symm.trans hFound')
    cases hCase : addressFor host tree name with
    | none =>
        exact hEither.resolve_right fun hSome => hSome hCase
    | some mac => rfl
  · intro name first hFirst hAlone
    rw [hFinal, start, addressFor_leftAlone hFirst hAlone]
    exact hFirst
  · intro name first hFirst hAlone
    rw [hFinal', start, addressFor_leftAlone hFirst hAlone]
    exact hFirst
  · exact fun more => (calls_again hIp hSweep more).1
  · exact fun more => (calls_again hIp hSingles more).1

theorem twoNets_swap
    (first second : Bytes)
    (name : Name) :
    twoNets second first (Equiv.swap eth0 eth1 name) =
      twoNets first second name := by
  by_cases hZero : name = eth0
  · rw [hZero, Equiv.swap_apply_left, twoNets, twoNets,
      if_neg eth0_ne_eth1.symm, if_pos rfl, if_pos rfl]
  · by_cases hOne : name = eth1
    · rw [hOne, Equiv.swap_apply_right, twoNets, twoNets,
        if_pos rfl, if_neg eth0_ne_eth1.symm, if_pos rfl]
    · rw [Equiv.swap_apply_of_ne_of_ne hZero hOne, twoNets,
        twoNets, if_neg hZero, if_neg hOne, if_neg hZero,
        if_neg hOne]

theorem samePorts_swap (first second : Bytes) :
    SamePorts (Equiv.swap eth0 eth1)
      (twoPorts first second) (twoPorts second first) := by
  have hEth : eth0.isEth = eth1.isEth := by decide +kernel
  constructor
  · rfl
  · intro name
    by_cases hZero : name = eth0
    · rw [hZero, Equiv.swap_apply_left, hEth]
    · by_cases hOne : name = eth1
      · rw [hOne, Equiv.swap_apply_right, hEth]
      · rw [Equiv.swap_apply_of_ne_of_ne hZero hOne]
  · intro name
    exact congrArg Option.isSome (twoNets_swap first second name)
  · intro name iface iface' hNet hNet'
    have hSame :=
      (twoNets_swap first second name).symm.trans hNet'
    obtain rfl := Option.some.inj (hNet.symm.trans hSame)
    exact ⟨rfl, rfl⟩

/- A sweep, and single calls with the names exchanged -/
theorem addresses_follow_ports_board :
    FollowPorts boardHost (Equiv.swap eth0 eth1)
      (twoPorts gmac pcie) (twoPorts pcie gmac)
      (calls boardHost (start (twoPorts gmac pcie)) [[]])
      (calls boardHost (start (twoPorts pcie gmac))
        ([eth1, eth0, eth1].map fun name => [name])) := by
  refine addresses_follow_ports boardIp_succeeds
    (samePorts_swap gmac pcie) ?_
  intro name hThere _
  exact List.mem_cons_of_mem _
    ((twoPorts pcie gmac).listed name hThere)

end Ethernet

end MicaBoards

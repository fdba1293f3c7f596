import MicaBoards.Foundations.Settling
import MicaBoards.Foundations.Words

/-
  The program that gives the Ethernet ports of the board their
  addresses (`hwinit-mac`), over what it sees in sysfs.

  Key definitions include:
    * `Interface`, `Tree`, `Host`
    * `macOf`, `topologyOf`
    * `assign`, `hwinitMac`, `calls`
-/

------------------------------------------------------------
-- Interfaces
------------------------------------------------------------

namespace MicaBoards

namespace Ethernet

open Text

/-
  The name of an interface, as the kernel has names: one word,
  and no path.  In the directory that the program runs in, no
  name is a pattern for a file.
-/
@[ext]
structure Name where
  bytes : Bytes
  ne_nil : bytes ≠ []
  oneWord : ∀ b ∈ bytes, isSpace b = false ∧ b ≠ 0x2f

instance decidableEqName : DecidableEq Name :=
  fun _ _ => decidable_of_iff' _ Name.ext_iff

/- `eth*` -/
def Name.isEth (name : Name) : Bool :=
  ascii "eth" <+: name.bytes

/-
  What sysfs has of an interface: `addr_assign_type`, if it
  can be read, and what `device` resolves to, if it is there.
-/
structure Interface where
  assignType : Option Nat
  device : Option Bytes
  address : Bytes
  up : Bool
deriving DecidableEq

/- `NET_ADDR_RANDOM` -/
def addrRandom : Nat := 1

/- `NET_ADDR_SET` -/
def addrSet : Nat := 3

/-
  A sysfs: what `devices` is canonically, if it is there, the
  names in `class/net`, in the order of the shell, and which
  of these are interfaces.
-/
@[ext]
structure Tree where
  devices : Option Bytes
  names : List Name
  net : Name → Option Interface
  listed : ∀ name, (net name).isSome = true → name ∈ names

/- `busybox ip link set dev`, and what it says of a failure -/
structure Ip where
  down : Name → Bool
  address : Name → (mac : Bytes) → Option Bytes

/- `md5sum`, as 32 digits -/
structure Md5 where
  sum : Bytes → Bytes
  length_sum : ∀ bytes, (sum bytes).length = 32

/- All else that the program sees -/
structure Host where
  sysfs : Bytes
  conf : Option Bytes
  readable : (path : Bytes) → Option Bytes
  ip : Ip
  md5 : Md5

inductive Command where
  | down (name : Name)
  | address (name : Name) (mac : Bytes)
deriving DecidableEq

/- Where the program is, and what it has done -/
structure Run where
  tree : Tree
  commands : List Command
  stderr : List Bytes

------------------------------------------------------------
-- Addresses
------------------------------------------------------------

/- `sed -n 's/^seed=//p' | head -n1` -/
def seedPath (conf : Bytes) : Bytes :=
  match (textLines conf).filter fun line =>
      ascii "seed=" <+: line with
  | [] => []
  | line :: _ => captured (line.drop (ascii "seed=").length)

def seedOf (host : Host) : Option Bytes :=
  match host.conf with
  | none => none
  | some conf =>
      match host.readable (seedPath conf) with
      | none => none
      | some text =>
          if seedPath conf = [] ∨ captured text = [] then none
          else some (captured text)

/- `"$sysdevices"/?*`, and what is behind the slash -/
def topologyOf (sysdevices dev : Bytes) : Option Bytes :=
  if sysdevices ++ ascii "/" <+: dev ∧
      dev.drop (sysdevices ++ ascii "/").length ≠ [] then
    some (dev.drop (sysdevices ++ ascii "/").length)
  else none

/- The digits of a sum that an address is made of -/
def truncated (sum : Bytes) : List Bytes :=
  [0, 2, 4, 6, 8].map fun k => (sum.drop k).take 2

def macText (sum : Bytes) : Bytes :=
  ascii "02" ++ (truncated sum).flatMap (ascii ":" ++ ·)

/- `printf '%s-%s' "$seed" "$topology"` -/
def hashed (seed topology : Bytes) : Bytes :=
  seed ++ ascii "-" ++ topology

def macOf (md5 : Md5) (seed topology : Bytes) : Bytes :=
  macText (md5.sum (hashed seed topology))

------------------------------------------------------------
-- The Program
------------------------------------------------------------

def netPath (host : Host) (name : Name) : Bytes :=
  host.sysfs ++ ascii "/class/net/" ++ name.bytes

def noDeviceText (host : Host) (name : Name) : Bytes :=
  ascii "hwinit-mac: " ++ name.bytes ++ ascii " has no " ++
    netPath host name ++ ascii "/device link, so it has no " ++
    ascii "place in the bus topology to derive a stable " ++
    ascii "address from; leaving its kernel-random address " ++
    ascii "alone"

def elsewhereText
    (host : Host)
    (name : Name)
    (sysdevices dev : Bytes) :
    Bytes :=
  ascii "hwinit-mac: " ++ name.bytes ++ ascii ": " ++
    netPath host name ++ ascii "/device resolves to '" ++
    (if dev = [] then ascii "nothing" else dev) ++
    ascii "', which is not under " ++ sysdevices ++
    ascii "; leaving its kernel-random address alone"

def refusedText
    (name : Name)
    (mac topology err : Bytes) :
    Bytes :=
  ascii "hwinit-mac: " ++ name.bytes ++
    ascii ": could not set " ++ mac ++ ascii " (topology " ++
    topology ++ ascii "): " ++
    (if err = [] then ascii "ip reported nothing" else err)

theorem listed_update
    (tree : Tree)
    (name : Name)
    (f : Interface → Interface)
    (other : Name)
    (hSome :
      (Function.update tree.net name ((tree.net name).map f)
        other).isSome = true) :
    other ∈ tree.names := by
  apply tree.listed
  by_cases hSame : other = name
  · rwa [hSame, Function.update_self, Option.isSome_map,
      ← hSame] at hSome
  · rwa [Function.update_of_ne hSame] at hSome

/- A sysfs with one interface changed -/
def Tree.change
    (tree : Tree)
    (name : Name)
    (f : Interface → Interface) :
    Tree :=
  { tree with
    net := Function.update tree.net name ((tree.net name).map f)
    listed := listed_update tree name f }

/- What the kernel makes of the two commands -/
def Interface.commanded
    (ip : Ip)
    (name : Name)
    (mac : Bytes)
    (iface : Interface) :
    Interface :=
  let stopped :=
    if ip.down name then { iface with up := false } else iface
  match ip.address name mac with
  | none =>
      { stopped with address := mac, assignType := some addrSet }
  | some _ => stopped

def setAddress
    (host : Host)
    (run : Run)
    (name : Name)
    (topology mac : Bytes) :
    Run where
  tree := run.tree.change name
    fun iface => iface.commanded host.ip name mac
  commands :=
    run.commands ++ [.down name, .address name mac]
  stderr :=
    run.stderr ++
      ((host.ip.address name mac).map fun err =>
        refusedText name mac topology (captured err)).toList

def Run.report (run : Run) (text : Bytes) : Run :=
  { run with stderr := run.stderr ++ [text] }

/- The body of the loop over the interfaces -/
def assign
    (host : Host)
    (seed sysdevices : Bytes)
    (run : Run)
    (name : Name) :
    Run :=
  if name.isEth then
    match run.tree.net name with
    | none => run
    | some iface =>
        if iface.assignType = some addrRandom then
          match iface.device with
          | none => run.report (noDeviceText host name)
          | some dev =>
              match topologyOf sysdevices dev with
              | none =>
                  run.report
                    (elsewhereText host name sysdevices dev)
              | some topology =>
                  setAddress host run name topology
                    (macOf host.md5 seed topology)
        else run
  else run

/- `ifaces`: the arguments, or all that is there -/
def called (tree : Tree) (arguments : List Name) : List Name :=
  if arguments ≠ [] then arguments
  else tree.names.filter Name.isEth

/- One call of the program -/
def hwinitMac
    (host : Host)
    (run : Run)
    (arguments : List Name) :
    Run :=
  match seedOf host, run.tree.devices with
  | some seed, some sysdevices =>
      (called run.tree arguments).foldl
        (assign host seed sysdevices) run
  | _, _ => run

/- Calls one after another; a call without names is a sweep. -/
def calls
    (host : Host)
    (run : Run)
    (arguments : List (List Name)) :
    Run :=
  arguments.foldl (hwinitMac host) run

end Ethernet

end MicaBoards

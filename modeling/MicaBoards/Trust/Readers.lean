import MicaBoards.Foundations.Shell
import MicaBoards.Trust.Bundle

/-
  The two programs that take the bundle, line by line as their
  sources have them: `stage-inner.sh` and `embed-fit-trust.sh`.
  What OpenSSL and the device tree tools do is a parameter.

  Key definitions include:
    * `StageTools`, `stageInner`
    * `FitTools`, `embedFitTrust`

  Main declarations:
    * `runStageInner_eq`
    * `runEmbed_of_some`, `runEmbed_of_none`
-/

------------------------------------------------------------
-- stage-inner.sh
------------------------------------------------------------

namespace MicaBoards

namespace Trust

open Text
open Shell

structure StageTools where
  /- `openssl crl2pkcs7 … | openssl pkcs7 …` ends well -/
  parses : Bytes → Bool
  /- `sha256sum FILE | cut -d ' ' -f 1` -/
  sha256 : Bytes → Bytes

/- The files of `/output` -/
structure Staging where
  signer : Option Bytes
  sha256 : Option Bytes
deriving DecidableEq

/- An empty directory of output -/
def Staging.none : Staging :=
  { signer := Option.none, sha256 := Option.none }

/- `awk '…' "${certificate}"` -/
def Staging.checked (staging : Staging) : Bool :=
  publicCertificatesOnly (textLines (staging.signer.getD []))

def stageInner
    (tools : StageTools)
    (text : Bytes) :
    Command Staging Empty :=
  Command.lines
    [ .step fun staging =>
        some { staging with signer := some text },
      (Command.test Staging.checked).orElse (.exit false),
      .test fun staging =>
        tools.parses (staging.signer.getD []),
      .step fun staging =>
        some { staging with
          sha256 := some
            (tools.sha256 (staging.signer.getD []) ++ [lf]) } ]

/- A run of `stage-inner.sh` on a bundle -/
def runStageInner
    (tools : StageTools)
    (text : Bytes) :
    Outcome Staging :=
  (stageInner tools text).run true Staging.none

/-
  What a run comes to: the copy of the bundle is there from
  the first line on, the digest only at the end.
-/
theorem runStageInner_eq
    (tools : StageTools)
    (text : Bytes) :
    runStageInner tools text =
      if publicCertificatesOnly (textLines text) = true ∧
          tools.parses text = true then
        .next true
          { signer := some text
            sha256 := some (tools.sha256 text ++ [lf]) }
      else .exited false
        { signer := some text, sha256 := none } := by
  cases hCheck : publicCertificatesOnly (textLines text) <;>
    cases hParses : tools.parses text <;>
    simp [runStageInner, stageInner, Command.lines,
      Command.step, Command.test, Command.run, Staging.checked,
      Staging.none, hCheck, hParses]

------------------------------------------------------------
-- embed-fit-trust.sh
------------------------------------------------------------

structure FitTools (Tree : Type) where
  /- `fdtget -l TREE NODE` -/
  nodes : Tree → (node : Bytes) → Option (List Bytes)
  /- `fdtget TREE NODE PROPERTY` -/
  property : Tree → (node name : Bytes) → Option Bytes
  /- `fdtput -r TREE NODE` -/
  removeNode : Tree → (node : Bytes) → Option Tree
  /- `fdtput -t s TREE NODE PROPERTY VALUE` -/
  putString : Tree → (node name value : Bytes) → Option Tree
  /- `openssl x509 -in FILE -noout -text` -/
  certificateText : Bytes → Option Bytes
  /- `openssl x509 … | openssl pkey … | sha256sum | cut …` -/
  keyId : Bytes → Option Bytes
  /-
    `fdt_add_pubkey -a sha256,rsa2048 -k … -n ID -r conf TREE`,
    with the certificate that the directory has for `ID`
  -/
  addPublicKey :
    (certificate id : Bytes) → Tree → Option Tree

/- The variables of the script and its files -/
structure Embedding (Tree : Type) where
  /- `$count` -/
  count : Nat
  /- `$work/control.dtb` -/
  control : Tree
  /- `$work/input-1.pem`, … -/
  inputs : List (List Bytes)
  /- `$work/certificate.txt` -/
  certificateText : Bytes
  /- `$id` -/
  id : Bytes
  /- `$work/$id.crt`, the newest first -/
  keys : List (Bytes × Bytes)
  /- `$output` -/
  output : Option Tree

def signatureNode : Bytes := ascii "/signature"

def keyNode (id : Bytes) : Bytes :=
  ascii "/signature/key-" ++ id

def conf : Bytes := ascii "conf"

def rsa2048 : Bytes := ascii "sha256,rsa2048"

section Embed

variable {Tree : Type}
variable (tools : FitTools Tree)

/- `grep -q TEXT FILE` -/
def greps (text file : Bytes) : Bool :=
  (textLines file).any fun line => Contains text line

/- `openssl x509 … > "$work/certificate.txt"` -/
def readCertificate
    (certificate : List Bytes)
    (state : Embedding Tree) :
    Option (Embedding Tree) :=
  (tools.certificateText (unlines certificate)).map
    fun text => { state with certificateText := text }

/- `id=$(…)` -/
def readKeyId
    (certificate : List Bytes)
    (state : Embedding Tree) :
    Option (Embedding Tree) :=
  (tools.keyId (unlines certificate)).map
    fun id => { state with id := id }

/- `[ ! -e "$work/$id.crt" ]` -/
def isNewKey (state : Embedding Tree) : Bool :=
  (state.keys.lookup state.id).isNone

/- `cp "$certificate" "$work/$id.crt"` -/
def copyCertificate
    (certificate : List Bytes)
    (state : Embedding Tree) :
    Option (Embedding Tree) :=
  some { state with
    keys := (state.id, unlines certificate) :: state.keys }

/- `"$tools/fdt_add_pubkey" …` -/
def addKey (state : Embedding Tree) :
    Option (Embedding Tree) := do
  let certificate ← state.keys.lookup state.id
  let control ←
    tools.addPublicKey certificate state.id state.control
  some { state with control := control }

/- `test "$(fdtget "$work/control.dtb" NODE NAME)" = VALUE` -/
def keyHas
    (name value : Bytes)
    (state : Embedding Tree) :
    Bool :=
  (tools.property state.control (keyNode state.id) name).getD []
    = value

/- The body of the `for` -/
def takeCertificate (certificate : List Bytes) :
    Command (Embedding Tree) (List Bytes) :=
  Command.lines
    [ .step (readCertificate tools certificate),
      .test fun state =>
        greps (ascii "Public Key Algorithm: rsaEncryption")
          state.certificateText,
      .test fun state =>
        greps (ascii "Public-Key: (2048 bit)")
          state.certificateText,
      .step (readKeyId tools certificate),
      (Command.test isNewKey).orElse (.exit false),
      .step (copyCertificate certificate),
      .step (addKey tools),
      .test (keyHas tools (ascii "required") conf),
      .test (keyHas tools (ascii "algo") rsa2048) ]

/- `fdtget -l … / | grep -cx signature` -/
def hasSignature (state : Embedding Tree) : Bool :=
  ((tools.nodes state.control (ascii "/")).getD []).contains
    (ascii "signature")

/- `fdtput -r "$work/control.dtb" /signature` -/
def removeSignature (state : Embedding Tree) :
    Option (Embedding Tree) :=
  (tools.removeNode state.control signatureNode).map
    fun control => { state with control := control }

/- `fdtput -t s "$work/control.dtb" /signature …` -/
def requireAnyKey (state : Embedding Tree) :
    Option (Embedding Tree) :=
  (tools.putString state.control signatureNode
    (ascii "required-mode") (ascii "any")).map
    fun control => { state with control := control }

/- `test "$(fdtget -l … /signature | wc -l)" = "$count"` -/
def countAgrees (state : Embedding Tree) : Bool :=
  ((tools.nodes state.control signatureNode).getD []).length
    = state.count

/- `count=$(grep -c …)`, which fails when nothing is found -/
def countCertificates
    (bundle : List Bytes)
    (state : Embedding Tree) :
    Option (Embedding Tree) :=
  if certificateCount bundle = 0 then none
  else some { state with count := certificateCount bundle }

/- `[ "$count" -ge 1 ]` -/
def hasKeys (state : Embedding Tree) : Bool :=
  1 ≤ state.count

/- `[ "$count" -le 8 ]` -/
def hasFewKeys (state : Embedding Tree) : Bool :=
  state.count ≤ 8

/- The lines up to the last copy -/
def embedKeys
    (control : Tree)
    (bundle : List Bytes) :
    Command (Embedding Tree) (List Bytes) :=
  Command.lines
    [ .step (countCertificates bundle),
      ((Command.test hasKeys).andThen
        (.test hasFewKeys)).orElse (.exit false),
      .negated (.test fun _ => HasPrivateKey bundle),
      .step fun state => some { state with control := control },
      .ifThen (.test (hasSignature tools))
        (.step (removeSignature tools)),
      .step fun state =>
        some { state with inputs := split bundle },
      .forEach Embedding.inputs (takeCertificate tools),
      .step (requireAnyKey tools),
      .test (countAgrees tools) ]

def embedFitTrust
    (control : Tree)
    (bundle : List Bytes) :
    Command (Embedding Tree) (List Bytes) :=
  (embedKeys tools control bundle).seq
    (Command.lines
      [ .step fun state =>
          some { state with output := some state.control } ])

/- The script before its first line; nothing is put out yet. -/
def Embedding.start (control : Tree) : Embedding Tree where
  count := 0
  control := control
  inputs := []
  certificateText := []
  id := []
  keys := []
  output := none

/- A run of `embed-fit-trust.sh` -/
def runEmbed
    (control : Tree)
    (text : Bytes) :
    Outcome (Embedding Tree) :=
  (embedFitTrust tools control (textLines text)).run true
    (Embedding.start control)

------------------------------------------------------------
-- What a Run of embed-fit-trust.sh Comes To
------------------------------------------------------------

/- One turn of the `for`, as far as it goes well -/
def taken
    (state : Embedding Tree)
    (certificate : List Bytes) :
    Option (Embedding Tree) := do
  let state ← readCertificate tools certificate state
  guard (greps (ascii "Public Key Algorithm: rsaEncryption")
    state.certificateText)
  guard (greps (ascii "Public-Key: (2048 bit)")
    state.certificateText)
  let state ← readKeyId tools certificate state
  guard (isNewKey state)
  let state ← copyCertificate certificate state
  let state ← addKey tools state
  guard (keyHas tools (ascii "required") conf state)
  guard (keyHas tools (ascii "algo") rsa2048 state)
  some state

theorem acts_takeCertificate
    (certificate : List Bytes)
    (state : Embedding Tree) :
    Acts (takeCertificate tools certificate) state
      (taken tools state certificate) :=
  Acts.lines_step fun _ =>
    Acts.lines_guard (Acts.test _ _) <|
    Acts.lines_guard (Acts.test _ _) <|
    Acts.lines_step fun _ =>
    Acts.lines_guard (Acts.test_orElse_exit _ _) <|
    Acts.lines_step fun _ =>
    Acts.lines_step fun _ =>
    Acts.lines_guard (Acts.test _ _) <|
    Acts.lines_guard (Acts.test _ _) <|
    Acts.lines_nil _

/- The control tree without the keys it came with -/
def withoutSignature (state : Embedding Tree) :
    Option (Embedding Tree) :=
  if hasSignature tools state then removeSignature tools state
  else some state

/-
  What the script makes of a control tree and a bundle.  No
  line of it asks for a private key.
-/
def embedding
    (control : Tree)
    (bundle : List Bytes) :
    Option (Embedding Tree) := do
  let state ← countCertificates bundle (Embedding.start control)
  guard (hasKeys state ∧ hasFewKeys state)
  let state := { state with control := control }
  let state ← withoutSignature tools state
  let state := { state with inputs := split bundle }
  let state ← state.inputs.foldlM (taken tools) state
  let state ← requireAnyKey tools state
  guard (countAgrees tools state)
  some state

theorem acts_embedKeys
    (control : Tree)
    (bundle : List Bytes) :
    Acts (embedKeys tools control bundle)
      (Embedding.start control)
      (embedding tools control bundle) := by
  refine Acts.lines_step fun counted => ?_
  refine Acts.lines_guard
    (Acts.test_andThen_orElse_exit _ _ counted) ?_
  refine Acts.lines_some (Acts.negated_test _ _) ?_
  refine Acts.lines_some (Acts.step _ _) ?_
  refine Acts.lines_bind
    (Acts.ifThen_test (Acts.step _ _)) fun cleared => ?_
  refine Acts.lines_some (Acts.step _ _) ?_
  refine Acts.lines_bind
    (Acts.forEach (acts_takeCertificate tools) _) fun taken => ?_
  refine Acts.lines_step fun required => ?_
  exact Acts.lines_guard (Acts.test _ _) (Acts.lines_nil _)

/- A step that writes no output keeps that there is none. -/
theorem keeps_output_step
    {f : Embedding Tree → Option (Embedding Tree)}
    (hStep :
      ∀ state next, f state = some next →
        next.output = state.output) :
    (Command.step f :
      Command (Embedding Tree) (List Bytes)).Keeps
        fun state => state.output = none :=
  Command.keeps_step fun state next hNext hNone =>
    (hStep state next hNext).trans hNone

theorem output_of_map
    {β : Type}
    {found : Option β}
    {update : β → Embedding Tree}
    {next : Embedding Tree}
    {output : Option Tree}
    (hMap : found.map update = some next)
    (hUpdate : ∀ b, (update b).output = output) :
    next.output = output := by
  rcases Option.map_eq_some_iff.mp hMap with ⟨b, -, rfl⟩
  exact hUpdate b

theorem keeps_output_takeCertificate
    (certificate : List Bytes) :
    (takeCertificate tools certificate).Keeps
      fun state => state.output = none := by
  refine ⟨keeps_output_step ?_, Command.keeps_test _ _,
    Command.keeps_test _ _, keeps_output_step ?_,
    ⟨Command.keeps_test _ _, trivial⟩, keeps_output_step ?_,
    keeps_output_step ?_, Command.keeps_test _ _,
    Command.keeps_test _ _, fun _ hNone => hNone⟩
  case refine_1 =>
    exact fun state next hNext =>
      output_of_map hNext fun _ => rfl
  case refine_2 =>
    exact fun state next hNext =>
      output_of_map hNext fun _ => rfl
  case refine_3 =>
    intro state next hNext
    rw [← Option.some.inj hNext]
  case refine_4 =>
    intro state next hNext
    rcases Option.bind_eq_some_iff.mp hNext with
      ⟨certificate, -, hAdd⟩
    rcases Option.bind_eq_some_iff.mp hAdd with
      ⟨control, -, hSet⟩
    rw [← Option.some.inj hSet]

/- Up to the last copy, nothing is put out. -/
theorem keeps_output_embedKeys
    (control : Tree)
    (bundle : List Bytes) :
    (embedKeys tools control bundle).Keeps
      fun state => state.output = none := by
  refine ⟨keeps_output_step ?_,
    ⟨⟨Command.keeps_test _ _, Command.keeps_test _ _⟩, trivial⟩,
    fun _ hNone => hNone, keeps_output_step ?_,
    ⟨Command.keeps_test _ _, keeps_output_step ?_⟩,
    keeps_output_step ?_, keeps_output_takeCertificate tools,
    keeps_output_step ?_, Command.keeps_test _ _,
    fun _ hNone => hNone⟩
  case refine_1 =>
    intro state next hNext
    unfold countCertificates at hNext
    split at hNext
    · cases hNext
    · rw [← Option.some.inj hNext]
  case refine_2 =>
    intro state next hNext
    rw [← Option.some.inj hNext]
  case refine_3 =>
    exact fun state next hNext =>
      output_of_map hNext fun _ => rfl
  case refine_4 =>
    intro state next hNext
    rw [← Option.some.inj hNext]
  case refine_5 =>
    exact fun state next hNext =>
      output_of_map hNext fun _ => rfl

/- A run that goes well puts the tree with its keys out. -/
theorem runEmbed_of_some
    {control : Tree}
    {text : Bytes}
    {state : Embedding Tree}
    (hKeys :
      embedding tools control (textLines text) = some state) :
    runEmbed tools control text =
      .next true { state with output := some state.control } := by
  have hActs := acts_embedKeys tools control (textLines text)
  rw [hKeys] at hActs
  rcases hActs with ⟨ok, hRun⟩
  rw [runEmbed, embedFitTrust, Command.run, hRun]
  rfl

/- Any other run fails, with nothing put out. -/
theorem runEmbed_of_none
    {control : Tree}
    {text : Bytes}
    (hKeys :
      embedding tools control (textLines text) = none) :
    (runEmbed tools control text).ok = false ∧
      (runEmbed tools control text).state.output = none := by
  have hActs := acts_embedKeys tools control (textLines text)
  rw [hKeys] at hActs
  rcases hActs with ⟨last, hRun⟩
  have hStart : (Embedding.start control).output = none := rfl
  have hKeeps :=
    Command.state_run
      (keeps_output_embedKeys tools control (textLines text))
      true hStart
  rw [hRun] at hKeeps
  rw [runEmbed, embedFitTrust, Command.run, hRun]
  exact ⟨rfl, hKeeps⟩

end Embed

end Trust

end MicaBoards

/-
The images (`utils/container/image.rs`) and the secrets (`utils/secret.rs`) of the containers a task creates, and the
internal data injected into a cargo (`utils/container/generic.rs`).
-/
import Nanocl.Runtime.Process

namespace Nanocl.Runtime

open Nanocl.Lib

variable (E : Env)

/-- `parse_name`: the name and the tag of an image, in lower case -/
def parseName (name : String) : Option (String × String) :=
  match (name.toList.splitOn ':').map String.ofList with
  | [image, tag] => some (image.toLower, tag.toLower)
  | _ => none

/-- `image::download` -/
def download (image : String) (secret : Option String) (policy : ImagePullPolicy) : Io Unit :=
  match policy with
  | .never => return ()
  | .ifNotPresent => if E.imagePresent image then return () else pull
  | .always => pull
where
  /-- the part after the `match` on the policy -/
  pull : Io Unit :=
    match parseName image with
    | none => Prog.fail ⟨"ParseName", .invalidInput, "Invalid image name"⟩
    | some (name, tag) => do
      let w ← Prog.get
      orThrow "DownloadImage" (await E (Docker.callInert E (.createImage w.draws name tag secret)))

/-- `load_env_secrets` -/
def loadEnvSecrets (secrets : Option (List String)) : Io (List String) :=
  match secrets with
  | none => return []
  | some secrets => do
    let w ← Prog.get
    orThrow "SecretDb" (await E (Docker.callInert E (.loadEnvSecrets w.draws)))
    return E.envSecrets secrets

/-- `create_tls_secrets`: the results of writing the files are discarded -/
def createTlsSecrets (key : String) (kind : ProcessKind) (secrets : Option (List String)) : Io String := do
  let secretDir := E.stateDir ++ "/secrets/" ++ kind.display ++ "/" ++ key
  if secrets.isSome then
    let w ← Prog.get
    orThrow "SecretDb" (await E (Docker.callInert E (.createTlsSecrets w.draws)))
  return secretDir

/-! ## Injection of internal data -/

/-- replace the pattern by the text, from left to right; `skip` characters belong to a match already replaced -/
def replaceFrom (pattern text : List Char) : (skip : ℕ) → List Char → List Char
  | _, [] => []
  | skip + 1, _ :: cs => replaceFrom pattern text skip cs
  | 0, c :: cs =>
    if pattern.isPrefixOf (c :: cs) then text ++ replaceFrom pattern text (pattern.length - 1) cs
    else c :: replaceFrom pattern text 0 cs

/-- `payload.replace("$$INTERNAL_GATEWAY", &gateway_addr)` -/
def injectText (gateway s : String) : String :=
  String.ofList (replaceFrom "$$INTERNAL_GATEWAY".toList gateway.toList 0 s.toList)

def Config.inject (gateway : String) (c : Config) : Config where
  image := c.image.map (injectText gateway)
  env := c.env.map fun l => l.map (injectText gateway)
  labels := c.labels.map fun l => l.map fun p => (injectText gateway p.1, injectText gateway p.2)
  hostname := c.hostname.map (injectText gateway)
  tty := c.tty
  attachStderr := c.attachStderr
  attachStdout := c.attachStdout
  hostConfig := c.hostConfig.map fun h =>
    { h with
      binds := h.binds.map fun l => l.map (injectText gateway)
      networkMode := h.networkMode.map (injectText gateway)
      devices := h.devices.map fun l => l.map fun d =>
        ⟨injectText gateway d.pathOnHost, injectText gateway d.pathInContainer, injectText gateway d.cgroupPermissions⟩
      capAdd := h.capAdd.map fun l => l.map (injectText gateway)
      others := h.others.map fun p => (p.1, injectText gateway p.2) }
  cmd := c.cmd.map fun l => l.map (injectText gateway)
  attachStdin := c.attachStdin
  openStdin := c.openStdin
  others := c.others.map fun p => (p.1, injectText gateway p.2)

/-- `inject_data` on a cargo, in what the creation of instances reads; names of objects have no `$` -/
def Cargo.inject (gateway : String) (cargo : Cargo) : Cargo :=
  { cargo with spec := { cargo.spec with
      container := cargo.spec.container.inject gateway
      secrets := cargo.spec.secrets.map fun l => l.map (injectText gateway)
      imagePullSecret := cargo.spec.imagePullSecret.map (injectText gateway) } }

def injectData (cargo : Cargo) : Io Cargo := do
  orThrow "Network" (await E (Docker.callInert E .inspectNetwork))
  return cargo.inject E.internalGateway

end Nanocl.Runtime

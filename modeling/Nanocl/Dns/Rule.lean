/-
The DNS controller (`ncdns`): it keeps a file of address lines for each network in the directory of dnsmasq.

The daemon calls it when a resource of the kind `ncdns.io/rule` is created or updated, before it stores the resource, and
when one is deleted, before it removes the row. To apply a rule, the controller writes the file of its network anew, from the
entries of the rule and those of the other rules that it lists from the daemon; it lists the resources of the kind `DnsRule`,
which is not the kind that it registers. To remove one, it drops the lines of its names from the file.

Addresses and the gateways of the host are texts without line breaks.
-/
import Mathlib.Logic.Function.Basic
import Nanocl.Lib.Lines
import Nanocl.Lib.Table
import Nanocl.Proxy.Rule

namespace Nanocl.Dns

open Lib Proxy

/-- the text of an address -/
structure Address where
  text : String
  feed : '\n' ∉ text.toList
  carriage : '\r' ∉ text.toList

def Address.ofText (text : String) (h : '\n' ∉ text.toList ∧ '\r' ∉ text.toList := by decide) : Address :=
  ⟨text, h.1, h.2⟩

def loopback : Address := .ofText "127.0.0.1"

structure DnsEntry (ι : Type) where
  name : String
  ipAddress : NetworkKind ι

structure ResourceDnsRule (ι : Type) where
  network : NetworkKind ι
  entries : List (DnsEntry ι)

structure Resource (ι : Type) where
  name : String
  kind : String
  data : ResourceDnsRule ι

theorem Resource.name_withData {ι : Type} (rule : ResourceDnsRule ι) (r : Resource ι) :
    { r with data := rule }.name = r.name := rfl

/-- what the daemon tells about its host: the address of the host, and the gateways of the bridge network -/
structure HostInfo where
  hostGateway : Address
  gateways : List (Option Address)

variable {ι : Type} [DecidableEq ι] (info : HostInfo) (display : ι → Address)

/-- `Display` of `NetworkKind` -/
def networkName : NetworkKind ι → String
  | .all => "All"
  | .localOnly => "Local"
  | .publicOnly => "Public"
  | .internal => "Internal"
  | .other ip => "Ip(" ++ (display ip).text ++ ")"

/-- `get_bridge_addr` -/
def getBridgeAddr : Except String Address :=
  match info.gateways.head? with
  | none => .error "Network: No network found for nanoclbr0"
  | some gateway => .ok (gateway.getD (.ofText ""))

/-- `get_network_addr` -/
def getNetworkAddr : NetworkKind ι → Except String Address
  | .localOnly => .ok loopback
  | .publicOnly => .ok info.hostGateway
  | .internal => getBridgeAddr info
  | network => .error ("Network: " ++ networkName display network ++ " is not supported")

/-- the address of an entry -/
def entryAddr : NetworkKind ι → Except String Address
  | .localOnly => .ok loopback
  | .publicOnly => .ok info.hostGateway
  | .internal => getBridgeAddr info
  | .other ip => .ok (display ip)
  | .all => .error "Network: All network is not supported"

/-- the line of an entry -/
def addressLine (name : String) (ip : Address) : String := "address=/" ++ name ++ "/" ++ ip.text

/-- the lines of entries -/
def entryLines : List (DnsEntry ι) → Except String (List String)
  | [] => .ok []
  | entry :: entries => do
    let ip ← entryAddr info display entry.ipAddress
    let rest ← entryLines entries
    .ok (addressLine entry.name ip :: rest)

/-- the resources that the daemon lists under a filter -/
def listResource (resources : List (Resource ι)) (kind key : String) (network : NetworkKind ι) : List (Resource ι) :=
  resources.filter fun r => r.kind = kind ∧ r.name ≠ key ∧ r.data.network = network

/-- the files of dnsmasq, by the names of the networks -/
abbrev Files := String → Option String

/-- `update_entries` -/
def updateEntries (resources : List (Resource ι)) (key : String) (rule : ResourceDnsRule ι) (files : Files) :
    Except String Files := do
  let others := listResource resources "DnsRule" key rule.network
  let entries := rule.entries ++ others.flatMap fun r => r.data.entries
  let listenAddress ← getNetworkAddr info display rule.network
  let addressLines ← entryLines info display entries
  .ok (Function.update files (networkName display rule.network)
    (some (unlines ("bind-dynamic" :: ("listen-address=" ++ listenAddress.text) :: addressLines))))

/-- the line is one of an entry of this name -/
def isOf (entries : List (DnsEntry ι)) (line : String) : Bool :=
  entries.any fun entry => ("address=/" ++ entry.name ++ "/").toList.isPrefixOf line.toList

/-- `remove_entries` -/
def removeEntries (rule : ResourceDnsRule ι) (files : Files) : Except String Files := do
  match files (networkName display rule.network) with
  | none => .error ("unable to read domains file for " ++ networkName display rule.network)
  | some content =>
    let listenAddress ← getNetworkAddr info display rule.network
    let fileContent := unlines ((lines content).filter fun line => !isOf rule.entries line)
    if fileContent = unlines ["listen-address=" ++ listenAddress.text] then
      .ok (Function.update files (networkName display rule.network) none)
    else .ok (Function.update files (networkName display rule.network) (some fileContent))

/-- `reload_service`: the process of dnsmasq is restarted, or not -/
def reloadService (restarts : Bool) : Except String Unit :=
  if restarts then .ok () else .error "ndns could not be restarted"

/-- `apply_rule`: its answer, and the files as they are then -/
def applyRule (resources : List (Resource ι)) (key : String) (rule : ResourceDnsRule ι) (restarts : Bool) (files : Files) :
    Except String Unit × Files :=
  match updateEntries info display resources key rule files with
  | .error e => (.error e, files)
  | .ok files => (reloadService restarts, files)

/-- `remove_rule`, of a rule that the daemon finds -/
def removeRule (rule : ResourceDnsRule ι) (restarts : Bool) (files : Files) : Except String Unit × Files :=
  match removeEntries info display rule files with
  | .error e => (.error e, files)
  | .ok files => (reloadService restarts, files)

/-! ## Runs -/

/-- the rules of the daemon and the files of the controller -/
structure State (ι : Type) where
  resources : Table (Resource.name (ι := ι))
  files : Files

def State.init : State ι := ⟨.empty, fun _ => none⟩

/-- a request to the daemon; the process of dnsmasq restarts or not -/
inductive Op (ι : Type) where
  | create (name : String) (rule : ResourceDnsRule ι) (restarts : Bool)
  | update (name : String) (rule : ResourceDnsRule ι) (restarts : Bool)
  | delete (name : String) (restarts : Bool)

/-- the daemon calls the controller first; it refuses what the controller refuses, but not a deletion -/
def step (s : State ι) : Op ι → State ι
  | .create name rule restarts =>
    match s.resources.insert ⟨name, "ncdns.io/rule", rule⟩ with
    | none => s
    | some resources =>
      match applyRule info display s.resources.rows name rule restarts s.files with
      | (.ok _, files) => ⟨resources, files⟩
      | (.error _, files) => { s with files }
  | .update name rule restarts =>
    match s.resources.find name with
    | none => s
    | some _ =>
      match applyRule info display s.resources.rows name rule restarts s.files with
      | (.ok _, files) => ⟨s.resources.update name (fun r => { r with data := rule }) (Resource.name_withData rule), files⟩
      | (.error _, files) => { s with files }
  | .delete name restarts =>
    match s.resources.find name with
    | none => s
    | some r => ⟨s.resources.delete name, (removeRule info display r.data restarts s.files).2⟩

end Nanocl.Dns

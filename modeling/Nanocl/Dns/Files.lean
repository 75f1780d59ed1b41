/-
The files of the networks against the rules that are live.

The listing of the other rules is empty, so an applied rule leaves only its own lines in the file of its network; a rule that
moves to another network leaves its lines in the old file; and the file of a network is never removed, since it begins with a
line that the check for an empty file does not count.

- `Exact`: the file of each network has the lines of the entries of its live rules, and there is none where there are no
  entries.
- `mem_lines_updateEntries`, `lines_removeEntries`: what the two calls make of a file.
- `exact_step_iff`, `files_iff`: a step and a run leave the files exact exactly if the rules of each network cover each other.
- `second_rule_replaces`: the second rule of a network takes the lines of the first away.
-/
import Nanocl.Dns.Rule
import Nanocl.Lib.Transition

namespace Nanocl.Dns

open Lib Proxy

variable {ι : Type} (info : HostInfo) (display : ι → Address)

/-! ## Property -/

/-- an address line of an entry of a live rule of the network -/
def LiveLine (resources : List (Resource ι)) (network : NetworkKind ι) (line : String) : Prop :=
  ∃ r ∈ resources, r.data.network = network ∧
    ∃ entry ∈ r.data.entries, ∃ ip, entryAddr info display entry.ipAddress = .ok ip ∧ line = addressLine entry.name ip

/-- the lines that are not of entries -/
def header (network : NetworkKind ι) : List String :=
  match getNetworkAddr info display network with
  | .ok ip => ["bind-dynamic", "listen-address=" ++ ip.text]
  | .error _ => ["bind-dynamic"]

/-- a file, or none, is that of a network -/
def ExactFile (resources : List (Resource ι)) (network : NetworkKind ι) : Option String → Prop
  | none => ∀ line, ¬ LiveLine info display resources network line
  | some content => (∃ line, LiveLine info display resources network line) ∧
      ∀ line, line ∈ lines content ↔ line ∈ header info display network ∨ LiveLine info display resources network line

/-- every network has its file -/
def Exact (s : State ι) : Prop :=
  ∀ network, ExactFile info display s.resources.rows network (s.files (networkName display network))

/-! ## Condition -/

/-- a rule that the controller accepts: its network and the networks of its entries have addresses -/
def Accepted (rule : ResourceDnsRule ι) : Prop :=
  (∃ ip, getNetworkAddr info display rule.network = .ok ip) ∧
    ∀ entry ∈ rule.entries, ∃ ip, entryAddr info display entry.ipAddress = .ok ip

/-- the lines that the entries of a rule are written as; a name with a line break is more than one -/
def writtenLines (rule : ResourceDnsRule ι) : List String :=
  match entryLines info display rule.entries with
  | .ok ls => lines (unlines ls)
  | .error _ => []

/-- the rule has the lines of all the rules of its network, of which there are some -/
def Covers (rule : ResourceDnsRule ι) (resources : List (Resource ι)) : Prop :=
  (∃ line, LiveLine info display resources rule.network line) ∧
    ∀ line, line ∉ header info display rule.network →
      (line ∈ writtenLines info display rule ↔ LiveLine info display resources rule.network line)

/-- the resources after a change that the daemon makes if dnsmasq restarts -/
def changed (before after : List (Resource ι)) (restarts : Bool) : List (Resource ι) := if restarts then after else before

/-- when the files are exact after a step -/
def Fits (s : State ι) : Op ι → Prop
  | .create name rule restarts => ∀ resources, s.resources.insert ⟨name, "ncdns.io/rule", rule⟩ = some resources →
      Accepted info display rule → Covers info display rule (changed s.resources.rows resources.rows restarts)
  | .update name rule restarts => ∀ old, s.resources.find name = some old → Accepted info display rule →
      let resources := changed s.resources.rows
        (s.resources.update name (fun r => { r with data := rule }) (Resource.name_withData rule)).rows restarts
      Covers info display rule resources ∧ (old.data.network ≠ rule.network → ∀ line,
        LiveLine info display s.resources.rows old.data.network line →
          LiveLine info display resources old.data.network line)
  | .delete name _ => ∀ old, s.resources.find name = some old →
      (∃ line, LiveLine info display s.resources.rows old.data.network line) →
      (∃ line, LiveLine info display (s.resources.delete name).rows old.data.network line) ∧
        ∀ line, LiveLine info display (s.resources.delete name).rows old.data.network line →
          isOf old.data.entries line = false

/-! ## Lines -/

section Lines

variable {info display} {resources : List (Resource ι)} {network : NetworkKind ι} {line : String}

/-- a line that ends in an address -/
theorem carriage_append {s : String} (ip : Address) (hs : s.toList.getLast? ≠ some '\r') :
    (s ++ ip.text).toList.getLast? ≠ some '\r' := by
  rw [String.toList_append, List.getLast?_append]
  cases htext : ip.text.toList.getLast? with
  | none => simpa using hs
  | some c =>
    rintro ⟨⟩
    exact ip.carriage (List.mem_of_getLast? htext)

theorem isLine_listen (ip : Address) : IsLine ("listen-address=" ++ ip.text) where
  feed := by
    rw [String.toList_append, List.mem_append, not_or]
    exact ⟨by decide, ip.feed⟩
  carriage := carriage_append ip (by decide)

theorem isLine_bind : IsLine "bind-dynamic" := ⟨by decide, by decide⟩

theorem header_of_ok {ip : Address} (h : getNetworkAddr info display network = .ok ip) :
    header info display network = ["bind-dynamic", "listen-address=" ++ ip.text] := by
  unfold header
  rw [h]

/-- the lines of a file that is written anew -/
theorem lines_file {ip : Address} (h : getNetworkAddr info display network = .ok ip) (ls : List String) :
    lines (unlines ("bind-dynamic" :: ("listen-address=" ++ ip.text) :: ls)) =
      header info display network ++ lines (unlines ls) := by
  rw [unlines, lines_cons isLine_bind, unlines, lines_cons (isLine_listen ip), header_of_ok h]
  rfl

theorem carriage_addressLine (name : String) (ip : Address) : (addressLine name ip).toList.getLast? ≠ some '\r' := by
  refine carriage_append ip ?_
  have hlast : ("address=/" ++ name ++ "/").toList.getLast? = some '/' := by
    rw [String.toList_append]
    exact List.getLast?_concat ..
  rw [hlast]
  decide

theorem mem_header_cases (h : line ∈ header info display network) :
    line = "bind-dynamic" ∨ ∃ ip : Address, line = "listen-address=" ++ ip.text := by
  unfold header at h
  split at h
  · next ip _ =>
    rcases List.mem_cons.1 h with rfl | h
    · exact .inl rfl
    · exact .inr ⟨ip, List.mem_singleton.1 h⟩
  · exact .inl (List.mem_singleton.1 h)

/-- an address line is no line of the header -/
theorem notMem_header_of_live (h : LiveLine info display resources network line) :
    line ∉ header info display network := by
  obtain ⟨-, -, -, entry, -, ip, -, rfl⟩ := h
  intro hmem
  obtain heq | ⟨ip', heq⟩ := mem_header_cases hmem
  · have := congrArg (fun s => s.toList.head?) heq
    simp [addressLine] at this
  · have := congrArg (fun s => s.toList.head?) heq
    simp [addressLine] at this

/-- a line of the header belongs to no entry -/
theorem isOf_header {entries : List (DnsEntry ι)} (h : line ∈ header info display network) : isOf entries line = false := by
  unfold isOf
  rw [List.any_eq_false]
  intro entry _ hprefix
  obtain ⟨rest, hrest⟩ := List.isPrefixOf_iff_prefix.1 hprefix
  have hhead := congrArg List.head? hrest
  obtain rfl | ⟨ip, rfl⟩ := mem_header_cases h
  · simp at hhead
  · simp at hhead

/-- an entry's own line belongs to it -/
theorem isOf_addressLine {entries : List (DnsEntry ι)} {entry : DnsEntry ι} (h : entry ∈ entries) (ip : Address) :
    isOf entries (addressLine entry.name ip) = true := by
  unfold isOf
  rw [List.any_eq_true]
  refine ⟨entry, h, List.isPrefixOf_iff_prefix.2 ⟨ip.text.toList, ?_⟩⟩
  simp [addressLine]

end Lines

/-! ## The two calls -/

section Calls

variable {info display} {resources : List (Resource ι)} {rule : ResourceDnsRule ι} {files : Files} {key : String}

/-- entries have lines if their networks have addresses -/
theorem entryLines_ok_iff {entries : List (DnsEntry ι)} : (∃ ls, entryLines info display entries = .ok ls) ↔
    ∀ entry ∈ entries, ∃ ip, entryAddr info display entry.ipAddress = .ok ip := by
  induction entries with
  | nil => simp [entryLines]
  | cons entry entries ih =>
    rw [List.forall_mem_cons, ← ih, entryLines]
    cases entryAddr info display entry.ipAddress with
    | error e => simp [bind, Except.bind]
    | ok ip => cases entryLines info display entries <;> simp [bind, Except.bind]

variable [DecidableEq ι]

/-- the other rules are listed under a kind that none has -/
theorem listResource_eq_nil (h : ∀ r ∈ resources, r.kind = "ncdns.io/rule") (network : NetworkKind ι) :
    listResource resources "DnsRule" key network = [] := by
  refine List.filter_eq_nil_iff.2 fun r hr => ?_
  have hkind : r.kind ≠ "DnsRule" := by
    rw [h r hr]
    decide
  simp [hkind]

theorem updateEntries_eq (hkinds : ∀ r ∈ resources, r.kind = "ncdns.io/rule") :
    updateEntries info display resources key rule files = (do
      let listenAddress ← getNetworkAddr info display rule.network
      let addressLines ← entryLines info display rule.entries
      .ok (Function.update files (networkName display rule.network)
        (some (unlines ("bind-dynamic" :: ("listen-address=" ++ listenAddress.text) :: addressLines))))) := by
  simp only [updateEntries, listResource_eq_nil hkinds, List.flatMap_nil, List.append_nil]

variable (files key) in
/-- **A rule that is accepted is the only one in its file.** -/
theorem updateEntries_ok (hkinds : ∀ r ∈ resources, r.kind = "ncdns.io/rule") (h : Accepted info display rule) :
    ∃ content, updateEntries info display resources key rule files =
        .ok (Function.update files (networkName display rule.network) (some content)) ∧
      lines content = header info display rule.network ++ writtenLines info display rule := by
  obtain ⟨⟨ip, hip⟩, hentries⟩ := h
  obtain ⟨ls, hls⟩ := entryLines_ok_iff.2 hentries
  refine ⟨_, ?_, (lines_file hip ls).trans (by rw [writtenLines, hls])⟩
  rw [updateEntries_eq hkinds, hip]
  simp only [bind, Except.bind, hls]

variable (files key) in
theorem updateEntries_error (hkinds : ∀ r ∈ resources, r.kind = "ncdns.io/rule") (h : ¬ Accepted info display rule) :
    ∃ e, updateEntries info display resources key rule files = .error e := by
  rw [updateEntries_eq hkinds]
  cases hip : getNetworkAddr info display rule.network with
  | error e => exact ⟨e, rfl⟩
  | ok ip =>
    cases hls : entryLines info display rule.entries with
    | error e => exact ⟨e, rfl⟩
    | ok ls => exact absurd ⟨⟨ip, hip⟩, entryLines_ok_iff.1 ⟨ls, hls⟩⟩ h

omit [DecidableEq ι] in
/-- **A rule that is removed loses its lines**, and its file stays. -/
theorem removeEntries_ok {content : String} (hfile : files (networkName display rule.network) = some content)
    (haddr : ∃ ip, getNetworkAddr info display rule.network = .ok ip) (hbind : "bind-dynamic" ∈ lines content)
    (hlines : ∀ line ∈ lines content, line.toList.getLast? ≠ some '\r') :
    ∃ content', removeEntries info display rule files =
        .ok (Function.update files (networkName display rule.network) (some content')) ∧
      lines content' = (lines content).filter fun line => !isOf rule.entries line := by
  obtain ⟨ip, hip⟩ := haddr
  have hread : lines (unlines ((lines content).filter fun line => !isOf rule.entries line)) =
      (lines content).filter fun line => !isOf rule.entries line := by
    refine lines_unlines fun line hline => ?_
    have hmem := (List.mem_filter.1 hline).1
    exact ⟨feed_of_mem_lines hmem, hlines line hmem⟩
  have hne : unlines ((lines content).filter fun line => !isOf rule.entries line) ≠
      unlines ["listen-address=" ++ ip.text] := by
    intro heq
    have hmem : "bind-dynamic" ∈ lines (unlines ["listen-address=" ++ ip.text]) := by
      rw [← heq, hread]
      refine List.mem_filter.2 ⟨hbind, ?_⟩
      have : "bind-dynamic" ∈ header info display rule.network := by simp [header_of_ok hip]
      simp [isOf_header this]
    rw [lines_unlines (by simpa using isLine_listen ip), List.mem_singleton] at hmem
    have := congrArg (fun s => s.toList.head?) hmem
    simp at this
  refine ⟨_, ?_, hread⟩
  unfold removeEntries
  simp only [hfile, hip, bind, Except.bind, if_neg hne]

end Calls

/-! ## One step -/

section Step

variable {info display} {resources resources' : List (Resource ι)} {network : NetworkKind ι} {rule : ResourceDnsRule ι}
  {o : Option String} {content : String}

/-- a file that does not change stays that of its network if the lines of the live rules do -/
theorem exactFile_same (h : ExactFile info display resources network o) :
    ExactFile info display resources' network o ↔
      ∀ line, LiveLine info display resources' network line ↔ LiveLine info display resources network line := by
  cases o with
  | none =>
    constructor
    · intro h' line
      exact iff_of_false (h' line) (h line)
    · intro hsame line
      rw [hsame]
      exact h line
  | some content =>
    obtain ⟨hsome, hlines⟩ := h
    constructor
    · rintro ⟨-, hlines'⟩ line
      have hiff := (hlines' line).symm.trans (hlines line)
      constructor
      · intro hlive
        exact (hiff.1 (.inr hlive)).resolve_left (notMem_header_of_live hlive)
      · intro hlive
        exact (hiff.2 (.inr hlive)).resolve_left (notMem_header_of_live hlive)
    · intro hsame
      refine ⟨?_, fun line => ?_⟩
      · obtain ⟨line, hline⟩ := hsome
        exact ⟨line, (hsame line).2 hline⟩
      · rw [hsame, hlines]

/-- a file that is written for a rule is that of its network if the rule covers the live ones -/
theorem exactFile_written (hcontent : lines content = header info display rule.network ++ writtenLines info display rule) :
    ExactFile info display resources rule.network (some content) ↔ Covers info display rule resources := by
  refine and_congr_right fun _ => forall_congr' fun line => ?_
  rw [hcontent, List.mem_append]
  constructor
  · intro h hno
    simpa [hno] using h
  · intro h
    by_cases hmem : line ∈ header info display rule.network
    · simp [hmem]
    · simpa [hmem] using h hmem

/-- a network with an address has a file of its own -/
theorem networkName_ne (haddr : ∃ ip, getNetworkAddr info display network = .ok ip) {other : NetworkKind ι}
    (hne : other ≠ network) : networkName display other ≠ networkName display network := by
  intro heq
  have htake := congrArg (fun s => s.toList.take 2) heq
  cases network with
  | all =>
    obtain ⟨ip, hip⟩ := haddr
    cases hip
  | other a =>
    obtain ⟨ip, hip⟩ := haddr
    cases hip
  | _ => cases other <;> first | exact hne rfl | simp [networkName] at htake

/-- the rules are the controller's, it accepted them, and the files are exact -/
structure Sound (info : HostInfo) (display : ι → Address) (s : State ι) : Prop where
  kinds : ∀ r ∈ s.resources.rows, r.kind = "ncdns.io/rule"
  accepted : ∀ r ∈ s.resources.rows, Accepted info display r.data
  exact : Exact info display s

/-- **After a rule is applied**: the files are exact if the rule covers the live ones of its network and no other network
loses or gets a line. -/
theorem exact_applied {s : State ι} (h : Sound info display s) (haccepted : Accepted info display rule)
    (hcontent : lines content = header info display rule.network ++ writtenLines info display rule)
    (table : Table (Resource.name (ι := ι))) :
    Exact info display ⟨table, Function.update s.files (networkName display rule.network) (some content)⟩ ↔
      Covers info display rule table.rows ∧ ∀ network, network ≠ rule.network → ∀ line,
        (LiveLine info display table.rows network line ↔ LiveLine info display s.resources.rows network line) := by
  have hother : ∀ network, network ≠ rule.network →
      Function.update s.files (networkName display rule.network) (some content) (networkName display network) =
        s.files (networkName display network) := fun network hne =>
    Function.update_of_ne (networkName_ne haccepted.1 hne) ..
  constructor
  · intro hexact
    constructor
    · have hfile := hexact rule.network
      simp only [Function.update_self] at hfile
      exact (exactFile_written hcontent).1 hfile
    · intro network hne
      have hfile := hexact network
      simp only [hother network hne] at hfile
      exact (exactFile_same (h.exact network)).1 hfile
  · rintro ⟨hcovers, hsame⟩ network
    by_cases hne : network = rule.network
    · subst hne
      simp only [Function.update_self]
      exact (exactFile_written hcontent).2 hcovers
    · simp only [hother network hne]
      exact (exactFile_same (h.exact network)).2 (hsame network hne)

theorem liveLine_append {r : Resource ι} {line : String} : LiveLine info display (resources ++ [r]) network line ↔
    LiveLine info display resources network line ∨ LiveLine info display [r] network line := by
  unfold LiveLine
  simp only [List.mem_append, or_and_right, exists_or]

/-- a rule has lines on its own network only -/
theorem liveLine_singleton {r : Resource ι} {line : String} (h : LiveLine info display [r] network line) :
    r.data.network = network := by
  obtain ⟨r', hr', hnet, -⟩ := h
  rwa [List.mem_singleton.1 hr'] at hnet

variable [DecidableEq ι] {s : State ι} {name : String} {restarts : Bool}

variable (name restarts) in
/-- what a request leaves of an accepted rule: its file, and the change if dnsmasq restarts -/
theorem applyRule_accepted (h : Sound info display s) (haccepted : Accepted info display rule) :
    ∃ content, applyRule info display s.resources.rows name rule restarts s.files =
        (reloadService restarts, Function.update s.files (networkName display rule.network) (some content)) ∧
      lines content = header info display rule.network ++ writtenLines info display rule := by
  obtain ⟨content, hok, hcontent⟩ := updateEntries_ok s.files name h.kinds haccepted
  exact ⟨content, by rw [applyRule, hok], hcontent⟩

variable (name restarts) in
/-- nothing is left of another rule -/
theorem applyRule_refused (h : Sound info display s) (hrefused : ¬ Accepted info display rule) :
    ∃ e, applyRule info display s.resources.rows name rule restarts s.files = (.error e, s.files) := by
  obtain ⟨e, he⟩ := updateEntries_error s.files name h.kinds hrefused
  exact ⟨e, by rw [applyRule, he]⟩

/-- **A creation** leaves the files exact if the new rule covers the others. -/
theorem exact_create (h : Sound info display s) :
    Exact info display (step info display s (.create name rule restarts)) ↔
      Fits info display s (.create name rule restarts) := by
  cases hinsert : s.resources.insert ⟨name, "ncdns.io/rule", rule⟩ with
  | none =>
    have hstep : step info display s (.create name rule restarts) = s := by simp only [step, hinsert]
    refine iff_of_true (by rw [hstep]; exact h.exact) ?_
    simp [Fits, hinsert]
  | some table =>
    by_cases haccepted : Accepted info display rule
    · obtain ⟨content, happly, hcontent⟩ := applyRule_accepted name restarts h haccepted
      have hstep : step info display s (.create name rule restarts) =
          ⟨if restarts then table else s.resources,
            Function.update s.files (networkName display rule.network) (some content)⟩ := by
        cases restarts <;> simp [step, hinsert, happly, reloadService]
      have hrows : (if restarts then table else s.resources).rows = changed s.resources.rows table.rows restarts := by
        cases restarts <;> rfl
      have hsame : ∀ network, network ≠ rule.network → ∀ line,
          (LiveLine info display (changed s.resources.rows table.rows restarts) network line ↔
            LiveLine info display s.resources.rows network line) := by
        intro network hne line
        cases restarts with
        | false => exact Iff.rfl
        | true =>
          rw [changed, if_pos rfl, (Table.insert_eq_some.1 hinsert).2, liveLine_append]
          exact or_iff_left fun hnew => hne (liveLine_singleton hnew).symm
      rw [hstep, exact_applied h haccepted hcontent, hrows]
      simp only [Fits, hinsert, Option.some.injEq, forall_eq']
      exact ⟨fun hc _ => hc.1, fun hc => ⟨hc haccepted, hsame⟩⟩
    · obtain ⟨e, happly⟩ := applyRule_refused name restarts h haccepted
      have hstep : step info display s (.create name rule restarts) = s := by simp [step, hinsert, happly]
      exact iff_of_true (by rw [hstep]; exact h.exact) fun _ _ hno => absurd hno haccepted

omit [DecidableEq ι] in
/-- the lines of the live rules after one of them was changed -/
theorem liveLine_update {line : String}
    (hne : network ≠ rule.network) :
    LiveLine info display (s.resources.update name (fun r => { r with data := rule }) fun _ => rfl).rows network line →
      LiveLine info display s.resources.rows network line := by
  rintro ⟨r, hr, hnet, hline⟩
  obtain ⟨r', hr', rfl⟩ := Table.mem_update.1 hr
  split_ifs at hnet hline with hname
  · exact absurd hnet.symm hne
  · exact ⟨r', hr', hnet, hline⟩

omit [DecidableEq ι] in
/-- a rule that does not change keeps its lines -/
theorem liveLine_update_of_ne {old : Resource ι} (hold : s.resources.find name = some old) {line : String}
    (hne : network ≠ old.data.network) (h : LiveLine info display s.resources.rows network line) :
    LiveLine info display (s.resources.update name (fun r => { r with data := rule }) fun _ => rfl).rows network line := by
  obtain ⟨r, hr, hnet, hline⟩ := h
  have hname : r.name ≠ name := by
    intro hname
    have : r = old := Option.some.inj ((Table.find_eq_some.2 ⟨hr, hname⟩).symm.trans hold)
    exact hne (this ▸ hnet).symm
  exact ⟨r, Table.mem_update.2 ⟨r, hr, if_neg hname⟩, hnet, hline⟩

/-- **An update** leaves the files exact if the rule covers the others and leaves no line on its old network. -/
theorem exact_update (h : Sound info display s) :
    Exact info display (step info display s (.update name rule restarts)) ↔
      Fits info display s (.update name rule restarts) := by
  cases hfind : s.resources.find name with
  | none =>
    have hstep : step info display s (.update name rule restarts) = s := by simp only [step, hfind]
    refine iff_of_true (by rw [hstep]; exact h.exact) ?_
    simp [Fits, hfind]
  | some old =>
    by_cases haccepted : Accepted info display rule
    · obtain ⟨content, happly, hcontent⟩ := applyRule_accepted name restarts h haccepted
      have hstep : step info display s (.update name rule restarts) =
          ⟨if restarts then s.resources.update name (fun r => { r with data := rule }) fun _ => rfl else s.resources,
            Function.update s.files (networkName display rule.network) (some content)⟩ := by
        cases restarts <;> simp [step, hfind, happly, reloadService]
      have hrows : (if restarts then s.resources.update name (fun r => { r with data := rule }) fun _ => rfl
          else s.resources).rows = changed s.resources.rows
            (s.resources.update name (fun r => { r with data := rule }) fun _ => rfl).rows restarts := by
        cases restarts <;> rfl
      rw [hstep, exact_applied h haccepted hcontent, hrows]
      simp only [Fits, hfind, Option.some.injEq, forall_eq', haccepted, forall_const]
      refine and_congr_right fun _ => ?_
      constructor
      · intro hsame hne line hline
        exact (hsame old.data.network hne line).2 hline
      · intro hkept network hne line
        cases restarts with
        | false => exact Iff.rfl
        | true =>
          constructor
          · exact liveLine_update hne
          · intro hline
            by_cases hold : network = old.data.network
            · subst hold
              exact hkept hne line hline
            · exact liveLine_update_of_ne hfind hold hline
    · obtain ⟨e, happly⟩ := applyRule_refused name restarts h haccepted
      have hstep : step info display s (.update name rule restarts) = s := by simp [step, hfind, happly]
      exact iff_of_true (by rw [hstep]; exact h.exact) fun _ _ hno => absurd hno haccepted

omit [DecidableEq ι] in
theorem liveLine_delete {line : String} (h : LiveLine info display (s.resources.delete name).rows network line) :
    LiveLine info display s.resources.rows network line := by
  obtain ⟨r, hr, hlive⟩ := h
  exact ⟨r, (Table.mem_deleteWhere.1 hr).1, hlive⟩

omit [DecidableEq ι] in
/-- a line is of the removed rule or of another one -/
theorem liveLine_cases {old : Resource ι} (hold : s.resources.find name = some old) {line : String}
    (h : LiveLine info display s.resources.rows network line) :
    (old.data.network = network ∧ isOf old.data.entries line = true) ∨
      LiveLine info display (s.resources.delete name).rows network line := by
  obtain ⟨r, hr, hnet, entry, hentry, ip, hip, rfl⟩ := h
  by_cases hname : r.name = name
  · have : r = old := Option.some.inj ((Table.find_eq_some.2 ⟨hr, hname⟩).symm.trans hold)
    subst this
    exact .inl ⟨hnet, isOf_addressLine hentry ip⟩
  · exact .inr ⟨r, Table.mem_deleteWhere.2 ⟨hr, decide_eq_false hname⟩, hnet, entry, hentry, ip, hip, rfl⟩

omit [DecidableEq ι] in
/-- what a file has: its header and the lines of the live rules, none of which ends in a carriage return -/
theorem carriage_of_exact (haddr : ∃ ip, getNetworkAddr info display network = .ok ip)
    (h : ExactFile info display resources network (some content)) :
    "bind-dynamic" ∈ lines content ∧ ∀ line ∈ lines content, line.toList.getLast? ≠ some '\r' := by
  obtain ⟨ip, hip⟩ := haddr
  refine ⟨(h.2 _).2 (.inl (by simp [header_of_ok hip])), fun line hline => ?_⟩
  obtain hheader | ⟨r, -, -, entry, -, ip, -, rfl⟩ := (h.2 line).1 hline
  · obtain rfl | ⟨ip, rfl⟩ := mem_header_cases hheader
    · exact isLine_bind.carriage
    · exact (isLine_listen ip).carriage
  · exact carriage_addressLine _ _

/-- **A deletion** leaves the files exact if lines stay, and none of them looks like one of the removed rule. -/
theorem exact_delete (h : Sound info display s) :
    Exact info display (step info display s (.delete name restarts)) ↔ Fits info display s (.delete name restarts) := by
  cases hfind : s.resources.find name with
  | none =>
    have hstep : step info display s (.delete name restarts) = s := by simp only [step, hfind]
    refine iff_of_true (by rw [hstep]; exact h.exact) ?_
    simp [Fits, hfind]
  | some old =>
    have haccepted := h.accepted old (Table.find_eq_some.1 hfind).1
    have hother : ∀ network, network ≠ old.data.network → ∀ line,
        (LiveLine info display (s.resources.delete name).rows network line ↔
          LiveLine info display s.resources.rows network line) := by
      intro network hne line
      constructor
      · exact liveLine_delete
      · intro hline
        exact (liveLine_cases hfind hline).resolve_left fun hold => hne hold.1.symm
    have hexact := h.exact old.data.network
    simp only [Fits, hfind, Option.some.injEq, forall_eq']
    cases hfile : s.files (networkName display old.data.network) with
    | none =>
      -- there is no file to read, and no line to keep
      rw [hfile] at hexact
      have hstep : step info display s (.delete name restarts) = ⟨s.resources.delete name, s.files⟩ := by
        simp [step, hfind, removeRule, removeEntries, hfile]
      refine iff_of_true ?_ fun ⟨line, hline⟩ => absurd hline (hexact line)
      rw [hstep]
      intro network
      refine (exactFile_same (h.exact network)).2 fun line => ?_
      by_cases hne : network = old.data.network
      · subst hne
        exact iff_of_false (fun hline => hexact line (liveLine_delete hline)) (hexact line)
      · exact hother network hne line
    | some content =>
      rw [hfile] at hexact
      obtain ⟨hbind, hcarriage⟩ := carriage_of_exact haccepted.1 hexact
      obtain ⟨content', hremove, hcontent'⟩ := removeEntries_ok hfile haccepted.1 hbind hcarriage
      have hstep : step info display s (.delete name restarts) =
          ⟨s.resources.delete name, Function.update s.files (networkName display old.data.network) (some content')⟩ := by
        simp [step, hfind, removeRule, hremove]
      have hkept : ∀ line, LiveLine info display (s.resources.delete name).rows old.data.network line →
          LiveLine info display s.resources.rows old.data.network line := fun line => liveLine_delete
      rw [hstep]
      simp only [hexact.1, forall_const]
      constructor
      · intro hnext
        have hnew := hnext old.data.network
        simp only [Function.update_self] at hnew
        refine ⟨hnew.1, fun line hline => ?_⟩
        have hmem := (hnew.2 line).2 (.inr hline)
        rw [hcontent', List.mem_filter] at hmem
        simpa using hmem.2
      · rintro ⟨hsome, hnamed⟩ network
        by_cases hne : network = old.data.network
        · subst hne
          simp only [Function.update_self]
          refine ⟨hsome, fun line => ?_⟩
          rw [hcontent', List.mem_filter, hexact.2]
          constructor
          · rintro ⟨hheader | hlive, hno⟩
            · exact .inl hheader
            · refine .inr ((liveLine_cases hfind hlive).resolve_left fun hold => ?_)
              simp [hold.2] at hno
          · rintro (hheader | hlive)
            · exact ⟨.inl hheader, by simp [isOf_header hheader]⟩
            · exact ⟨.inr (hkept line hlive), by simp [hnamed line hlive]⟩
        · simp only [Function.update_of_ne (networkName_ne haccepted.1 hne)]
          exact (exactFile_same (h.exact network)).2 (hother network hne)

/-- **One request leaves the files exact exactly if it fits.** -/
theorem exact_step_iff (h : Sound info display s) (o : Op ι) :
    Exact info display (step info display s o) ↔ Fits info display s o := by
  cases o with
  | create name rule restarts => exact exact_create h
  | update name rule restarts => exact exact_update h
  | delete name restarts => exact exact_delete h

/-- every request keeps the rules sound -/
theorem sound_step (h : Sound info display s) {o : Op ι} (hexact : Exact info display (step info display s o)) :
    Sound info display (step info display s o) := by
  suffices hrows : ∀ r ∈ (step info display s o).resources.rows, r.kind = "ncdns.io/rule" ∧ Accepted info display r.data from
    ⟨fun r hr => (hrows r hr).1, fun r hr => (hrows r hr).2, hexact⟩
  have hold : ∀ r ∈ s.resources.rows, r.kind = "ncdns.io/rule" ∧ Accepted info display r.data :=
    fun r hr => ⟨h.kinds r hr, h.accepted r hr⟩
  clear hexact
  cases o with
  | create name rule restarts =>
    cases hinsert : s.resources.insert ⟨name, "ncdns.io/rule", rule⟩ with
    | none => simpa only [step, hinsert] using hold
    | some table =>
      by_cases haccepted : Accepted info display rule
      · obtain ⟨content, happly, -⟩ := applyRule_accepted name restarts h haccepted
        cases restarts with
        | false => simpa [step, hinsert, happly, reloadService] using hold
        | true =>
          intro r hr
          have hr : r ∈ table.rows := by simpa [step, hinsert, happly, reloadService] using hr
          rcases (Table.mem_insert hinsert).1 hr with hr | rfl
          · exact hold r hr
          · exact ⟨rfl, haccepted⟩
      · obtain ⟨e, happly⟩ := applyRule_refused name restarts h haccepted
        simpa [step, hinsert, happly] using hold
  | update name rule restarts =>
    cases hfind : s.resources.find name with
    | none => simpa only [step, hfind] using hold
    | some old =>
      by_cases haccepted : Accepted info display rule
      · obtain ⟨content, happly, -⟩ := applyRule_accepted name restarts h haccepted
        cases restarts with
        | false => simpa [step, hfind, happly, reloadService] using hold
        | true =>
          intro r hr
          have hr : r ∈ (s.resources.update name (fun r => { r with data := rule }) fun _ => rfl).rows := by
            simpa [step, hfind, happly, reloadService] using hr
          obtain ⟨r', hr', rfl⟩ := Table.mem_update.1 hr
          split_ifs
          · exact ⟨h.kinds r' hr', haccepted⟩
          · exact hold r' hr'
      · obtain ⟨e, happly⟩ := applyRule_refused name restarts h haccepted
        simpa [step, hfind, happly] using hold
  | delete name restarts =>
    cases hfind : s.resources.find name with
    | none => simpa only [step, hfind] using hold
    | some old =>
      intro r hr
      have hr : r ∈ (s.resources.delete name).rows := by simpa only [step, hfind] using hr
      exact hold r (Table.mem_deleteWhere.1 hr).1

end Step

/-- at first there are no rules and no files -/
theorem sound_init : Sound info display (State.init (ι := ι)) where
  kinds _ h := by cases h
  accepted _ h := by cases h
  exact network line := by
    rintro ⟨r, hr, -⟩
    cases hr

/-- **The files are exact after every request of a run exactly if every request fits**: a rule that is applied has the lines of
all rules of its network and leaves none on another, and one that is deleted is not the last one with lines and shares no
name with the others. -/
theorem files_iff [DecidableEq ι] (ops : List (Op ι)) :
    Along (step info display) (fun s o => Exact info display (step info display s o)) .init ops ↔
      Along (step info display) (Fits info display) .init ops :=
  along_inv_iff (I := Exact info display) (J := Sound info display) (fun _ h => h.exact)
    (fun _ o h hfits => sound_step h ((exact_step_iff h o).2 hfits))
    (fun _ o h hnext => (exact_step_iff h o).1 hnext) (sound_init info display) ops

def exampleInfo : HostInfo := ⟨.ofText "192.168.1.2", [some (.ofText "172.18.0.1")]⟩

/-- a rule on the loopback with one entry -/
def loopbackRule (name : String) : ResourceDnsRule Unit := ⟨.localOnly, [⟨name, .localOnly⟩]⟩

/-- the second rule of a network takes the lines of the first away -/
theorem second_rule_replaces :
    ¬ ∀ ops : List (Op Unit), Along (step exampleInfo fun _ => loopback)
      (fun s o => Exact exampleInfo (fun _ => loopback) (step exampleInfo (fun _ => loopback) s o)) .init ops := by
  intro h
  obtain ⟨hfirst, hsecond, -⟩ := h [.create "a" (loopbackRule "a.local") true, .create "b" (loopbackRule "b.local") true]
  have hsound := sound_step (sound_init exampleInfo fun _ => loopback) hfirst
  have haccepted : ∀ name, Accepted exampleInfo (fun _ => loopback) (loopbackRule name) := fun name =>
    ⟨⟨loopback, rfl⟩, by simp [loopbackRule, entryAddr]⟩
  have hrows : (step exampleInfo (fun _ => loopback) .init
      (.create "a" (loopbackRule "a.local") true)).resources.rows = [⟨"a", "ncdns.io/rule", loopbackRule "a.local"⟩] := rfl
  obtain ⟨table, hinsert⟩ : ∃ table, (step exampleInfo (fun _ => loopback) .init
      (.create "a" (loopbackRule "a.local") true)).resources.insert ⟨"b", "ncdns.io/rule", loopbackRule "b.local"⟩ =
        some table := Table.insert_of_find (Table.find_eq_none.2 (by rw [hrows]; simp))
  have hfits := (exact_step_iff hsound _).1 hsecond table hinsert (haccepted _)
  have hlive : LiveLine exampleInfo (fun _ => loopback) table.rows .localOnly (addressLine "a.local" loopback) := by
    refine ⟨⟨"a", "ncdns.io/rule", loopbackRule "a.local"⟩, (Table.mem_insert hinsert).2 (.inl (by rw [hrows]; simp)), rfl, ?_⟩
    exact ⟨⟨"a.local", .localOnly⟩, List.mem_singleton.2 rfl, loopback, rfl, rfl⟩
  have hwritten := (hfits.2 _ (notMem_header_of_live hlive)).2 hlive
  exact absurd hwritten (by decide)

end Nanocl.Dns

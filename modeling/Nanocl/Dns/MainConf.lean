/-
The main configuration of dnsmasq (`bin/ncdns/src/dnsmasq.rs`). `set_dns` puts a line for each configured server in front
of the lines that are no server lines, and `ensure` does so with a fresh file.

- `splitOn_setDns`: what is written, line by line.
- `kept_setDns`: the lines that are kept from a file that was written before. `str::lines` takes a carriage return at the
  end of a line for a part of the line break.
- `set_dns_laws`: a second call, with the same servers or with others, makes what a call on the first text makes exactly
  if no kept line ends in a carriage return.
-/
import Nanocl.Lib.Lines
import Mathlib.Tactic

namespace Nanocl.Dns

open Lib

structure Dnsmasq where
  configDir : String
  dns : List String

/-- `with_dns` -/
def Dnsmasq.withDns (d : Dnsmasq) (dns : List String) : Dnsmasq := { d with dns := dns }

/-- the contents that `gen_main_conf` writes -/
def Dnsmasq.genMainConf (d : Dnsmasq) : String :=
  "bind-dynamic\nno-resolv\nno-poll\nno-hosts\nproxy-dnssec\nexcept-interface=lo\ninterface=nanoclbr0\nconf-dir=" ++
    d.configDir ++ "/dnsmasq.d,*.conf\n"

def serverLine (dns : String) : String := "server=" ++ dns

def isServerLine (line : String) : Bool := "server=".toList.isPrefixOf line.toList

/-- the lines of a text that are no server lines -/
def keptLines (data : String) : List String := (lines data).filter fun line => !isServerLine line

/-- `set_dns`: the main config it writes; where there is none to read, one is generated first -/
def Dnsmasq.setDns (d : Dnsmasq) (file : Option String) : String :=
  let data := file.getD d.genMainConf
  unlines (d.dns.map serverLine) ++ unlines (keptLines data)

/-- `ensure`: the main config it leaves -/
def Dnsmasq.ensure (d : Dnsmasq) : String := d.setDns (some d.genMainConf)

/-! ## What is written -/

theorem Dnsmasq.setDns_eq (d : Dnsmasq) (text : String) :
    d.setDns (some text) = unlines (d.dns.map serverLine ++ keptLines text) := (unlines_append _ _).symm

theorem feed_serverLine {dns : String} (h : '\n' ∉ dns.toList) : '\n' ∉ (serverLine dns).toList := by
  simp [serverLine, h]

theorem feed_keptLines {l data : String} (h : l ∈ keptLines data) : '\n' ∉ l.toList :=
  feed_of_mem_lines (List.mem_filter.1 h).1

theorem feed_written {d : Dnsmasq} (hd : ∀ s ∈ d.dns, '\n' ∉ s.toList) (text : String) :
    ∀ l ∈ d.dns.map serverLine ++ keptLines text, '\n' ∉ l.toList := by
  intro l hl
  rcases List.mem_append.1 hl with hl | hl
  · obtain ⟨s, hs, rfl⟩ := List.mem_map.1 hl
    exact feed_serverLine (hd s hs)
  · exact feed_keptLines hl

/-- a line for each server, then the kept lines, each ended by a line feed -/
theorem splitOn_setDns {d : Dnsmasq} (hd : ∀ s ∈ d.dns, '\n' ∉ s.toList) (text : String) :
    (d.setDns (some text)).toList.splitOn '\n' =
      (d.dns.map serverLine ++ keptLines text).map String.toList ++ [[]] := by
  rw [d.setDns_eq, splitOn_unlines (feed_written hd text)]

/-! ## A second call -/

theorem isServerLine_serverLine (dns : String) : isServerLine (serverLine dns) = true := by
  rw [isServerLine, List.isPrefixOf_iff_prefix]
  exact ⟨dns.toList, by simp [serverLine]⟩

/-- a carriage return at the end does not tell server lines from others -/
theorem isServerLine_chomp (l : String) : isServerLine (chomp l) = isServerLine l := by
  unfold chomp stripCr
  split_ifs with h
  · rw [Bool.eq_iff_iff, isServerLine, isServerLine, List.isPrefixOf_iff_prefix, List.isPrefixOf_iff_prefix]
    obtain ⟨cs, hcs⟩ : ∃ cs, l.toList = cs ++ ['\r'] := ⟨_, (List.dropLast_append_getLast? _ h).symm⟩
    rw [hcs, List.dropLast_concat]
    simp only [String.toList_ofList, List.prefix_concat_iff]
    refine (or_iff_right fun heq => ?_).symm
    have hlast := congrArg List.getLast? heq
    rw [List.getLast?_concat] at hlast
    exact absurd hlast (by decide)
  · rw [String.ofList_toList]

/-- the lines that a later call keeps of a written file -/
theorem kept_setDns {d : Dnsmasq} (hd : ∀ s ∈ d.dns, '\n' ∉ s.toList) (text : String) :
    keptLines (d.setDns (some text)) = (keptLines text).map chomp := by
  have hservers : ((d.dns.map serverLine).map chomp).filter (fun line => !isServerLine line) = [] := by
    rw [List.filter_eq_nil_iff]
    intro l hl
    obtain ⟨s, hs, rfl⟩ := List.mem_map.1 hl
    obtain ⟨dns, -, rfl⟩ := List.mem_map.1 hs
    simp [isServerLine_chomp, isServerLine_serverLine]
  have hkept : ((keptLines text).map chomp).filter (fun line => !isServerLine line) = (keptLines text).map chomp := by
    rw [List.filter_eq_self]
    intro l hl
    obtain ⟨s, hs, rfl⟩ := List.mem_map.1 hl
    rw [isServerLine_chomp]
    exact (List.mem_filter.1 hs).2
  rw [d.setDns_eq, keptLines, lines_unlines_chomp (feed_written hd text), List.map_append, List.filter_append, hservers,
    List.nil_append, hkept]

/-- no line that is kept of the text ends in a carriage return -/
def NoCarriage (text : String) : Prop := ∀ l ∈ keptLines text, l.toList.getLast? ≠ some '\r'

instance (text : String) : Decidable (NoCarriage text) := by unfold NoCarriage; infer_instance

theorem map_chomp_iff (text : String) : (keptLines text).map chomp = keptLines text ↔ NoCarriage text := by
  conv_lhs => rhs; rw [← List.map_id (keptLines text)]
  rw [List.map_inj_left]
  exact forall₂_congr fun l _ => chomp_eq_self

/-- a call with any servers makes of the written file what it makes of the text, or of no text with a carriage return -/
theorem setDns_setDns_iff {d : Dnsmasq} (hd : ∀ s ∈ d.dns, '\n' ∉ s.toList) (text : String) (dns : List String) :
    (d.withDns dns).setDns (some (d.setDns (some text))) = (d.withDns dns).setDns (some text) ↔ NoCarriage text := by
  have hchomp : ∀ l ∈ (keptLines text).map chomp, '\n' ∉ l.toList := by
    intro l hl
    rw [← kept_setDns hd] at hl
    exact feed_keptLines hl
  rw [← map_chomp_iff, ← unlines_inj hchomp fun l hl => feed_keptLines hl]
  simp only [Dnsmasq.setDns, Dnsmasq.withDns, Option.getD_some, String.append_right_inj]
  rw [← kept_setDns hd]
  rfl

/-- **Server lines.** For every text and every list of servers without line feeds the written file has a line for each
server, in order, then the lines of the text that are no server lines, in order. A second call leaves it as it is, and a
call with other servers makes of it what it makes of the text, exactly if no kept line of the text ends in a carriage
return. -/
theorem set_dns_laws (d : Dnsmasq) (hd : ∀ s ∈ d.dns, '\n' ∉ s.toList) (text : String) :
    (d.setDns (some text)).toList.splitOn '\n' =
      (d.dns.map serverLine ++ keptLines text).map String.toList ++ [[]] ∧
    (d.setDns (some (d.setDns (some text))) = d.setDns (some text) ↔ NoCarriage text) ∧
    ∀ dns : List String, (d.withDns dns).setDns (some (d.setDns (some text))) = (d.withDns dns).setDns (some text) ↔
      NoCarriage text :=
  ⟨splitOn_setDns hd text, setDns_setDns_iff hd text d.dns, setDns_setDns_iff hd text⟩

/-- the text of `gen_main_conf` with two servers -/
def twoServers : Dnsmasq := ⟨"/etc/dns", ["1.1.1.1", "8.8.8.8"]⟩

theorem set_dns_two_servers :
    twoServers.setDns (some (twoServers.setDns (some twoServers.genMainConf))) =
      twoServers.setDns (some twoServers.genMainConf) :=
  (set_dns_laws twoServers (by decide) twoServers.genMainConf).2.1.2 (by decide +kernel)

/-- a text with two carriage returns at the end of a line loses one with each call -/
theorem carriage_returns_lost :
    twoServers.setDns (some "no-hosts\r\r\n") = "server=1.1.1.1\nserver=8.8.8.8\nno-hosts\r\n" ∧
    twoServers.setDns (some (twoServers.setDns (some "no-hosts\r\r\n"))) =
      "server=1.1.1.1\nserver=8.8.8.8\nno-hosts\n" ∧
    ¬ ∀ (d : Dnsmasq) (text : String), (∀ s ∈ d.dns, '\n' ∉ s.toList) →
      d.setDns (some (d.setDns (some text))) = d.setDns (some text) := by
  have honce : twoServers.setDns (some "no-hosts\r\r\n") = "server=1.1.1.1\nserver=8.8.8.8\nno-hosts\r\n" := by
    decide +kernel
  have htwice : twoServers.setDns (some (twoServers.setDns (some "no-hosts\r\r\n"))) =
      "server=1.1.1.1\nserver=8.8.8.8\nno-hosts\n" := by
    rw [honce]
    decide +kernel
  refine ⟨honce, htwice, fun h => ?_⟩
  have heq := h twoServers "no-hosts\r\r\n" (by decide)
  rw [htwice, honce] at heq
  exact absurd heq (by decide)

end Nanocl.Dns

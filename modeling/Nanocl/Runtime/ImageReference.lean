/-
Image references: what a text designates for docker (an optional registry host with its port, a path, a tag or a
digest), and what `parse_name` of `utils/container/image.rs` makes of it.

`parse_name` splits at `:` and takes exactly two parts, both in lower case. A reference has one `:` for its tag, one
for the port of its registry and one in its digest, and none if it is not tagged. Docker takes the two parts for the name
of an image and its tag (`pulledImage`), whatever they were.

- `parseName_eq_some_iff`: the texts `parse_name` accepts, and the pair it returns.

- `split_lower`: lower case changes no cut of a reference, but may take a registry for a part of the path.

- `split_tagged`: a reference is cut at its only `:` exactly if what follows is the tag.

- `image_kept_iff`: the image that is pulled is the one the reference designates exactly if the only `:` is that of a tag
  without an upper-case letter, the name is no image id, and the registry is still one in lower case.

Counterexample: `untagged_refused`.
-/
import Nanocl.Lib.Split
import Nanocl.Runtime.Log
import Mathlib

namespace Nanocl.Runtime

open Nanocl.Lib

/-! ## References -/

/-- the parts of a reference -/
structure ImageRef where
  host : Option (List Char)
  path : List (List Char)
  tag : Option (List Char)
  digest : Option (List Char)
deriving DecidableEq

/-- the image a reference designates: the registry, the repository in it, and the tag or the digest -/
structure Designated where
  host : List Char
  path : List (List Char)
  tag : Option (List Char)
  digest : Option (List Char)
deriving DecidableEq

def lower (l : List Char) : List Char := l.map Char.toLower

namespace ImageRef

/-- the first part of a path is a registry: it has a dot or a port, is `localhost`, or could be no repository -/
def isHost (first : List Char) : Bool :=
  first.contains '.' || first.contains ':' || first == "localhost".toList || lower first != first

def split (s : List Char) : ImageRef :=
  let (named, digest) := cutAt '@' s
  let parts := named.splitOn '/'
  let (last, tag) := cutAt ':' (parts.getLast?.getD [])
  match parts.dropLast with
  | [] => ⟨none, [last], tag, digest⟩
  | first :: middle =>
    if isHost first then ⟨some first, middle ++ [last], tag, digest⟩
    else ⟨none, first :: middle ++ [last], tag, digest⟩

/-! ### The grammar -/

def isHexDigit (c : Char) : Bool := c.isDigit || 'a' ≤ c.toLower && c.toLower ≤ 'f'

/-- letters and digits at both ends, and dashes in between -/
def domainComponent (l : List Char) : Bool :=
  l.head?.any Char.isAlphanum && l.getLast?.any Char.isAlphanum && l.all fun c => c.isAlphanum || c == '-'

def port (l : List Char) : Bool := l != [] && l.all Char.isDigit

/-- a name of components, and a port -/
def validName (l : List Char) : Bool :=
  ((cutAt ':' l).1.splitOn '.').all domainComponent && (cutAt ':' l).2.all port

/-- what follows an opening bracket: an address, the closing bracket, and a port -/
def validAddress (l : List Char) : Bool :=
  match cutAt ']' l with
  | (address, some rest) =>
    address != [] && address.all (fun c => isHexDigit c || c == ':') &&
      (rest == [] || rest.head? == some ':' && port rest.tail)
  | _ => false

def validHost (l : List Char) : Bool :=
  match l with
  | '[' :: l => validAddress l
  | _ => validName l

def separator (l : List Char) : Bool := l == ['.'] || l == ['_'] || l == ['_', '_'] || l.all (· == '-')

def lowerAlphanum (c : Char) : Bool := c.isLower || c.isDigit

/-- lower-case letters and digits, with separators in between -/
def pathComponent (l : List Char) : Bool :=
  l.head?.any lowerAlphanum && l.getLast?.any lowerAlphanum &&
    (l.splitBy fun a b => lowerAlphanum a == lowerAlphanum b).all fun run => run.all lowerAlphanum || separator run

def validTag (l : List Char) : Bool :=
  l.length ≤ 128 && l.head?.any (fun c => c.isAlphanum || c == '_') &&
    l.all fun c => c.isAlphanum || c == '_' || c == '.' || c == '-'

/-- the algorithms of digests, with the number of their hexadecimal digits -/
def algorithms : List (List Char × ℕ) := [("sha256".toList, 64), ("sha384".toList, 96), ("sha512".toList, 128)]

def validDigest (l : List Char) : Bool :=
  match cutAt ':' l with
  | (algorithm, some hex) =>
    algorithms.contains (algorithm, hex.length) && hex.all fun c => c.isDigit || 'a' ≤ c && c ≤ 'f'
  | _ => false

def valid (r : ImageRef) : Bool :=
  r.host.all validHost && r.path.all pathComponent && r.tag.all validTag && r.digest.all validDigest

/-! ### What it designates -/

def dockerHub : List Char := "docker.io".toList

/-- the name it had -/
def legacyHub : List Char := "index.docker.io".toList

/-- the repository of a path in the default registry -/
def hubPath (path : List (List Char)) : List (List Char) := if path.length = 1 then "library".toList :: path else path

/-- the registry and the repository; letter case does not matter in the name of a host -/
def repository (r : ImageRef) : List Char × List (List Char) :=
  match r.host with
  | none => (dockerHub, hubPath r.path)
  | some host =>
    if host = dockerHub ∨ host = legacyHub then (dockerHub, hubPath r.path) else (lower host, r.path)

/-- without a tag and a digest it is the latest image -/
def version (r : ImageRef) : Option (List Char) :=
  match r.tag, r.digest with
  | none, none => some "latest".toList
  | tag, _ => tag

def designated (r : ImageRef) : Designated := ⟨r.repository.1, r.repository.2, r.version, r.digest⟩

end ImageRef

/-- the id of an image, which is no reference: 64 hexadecimal digits -/
def isIdentifier (l : List Char) : Bool := l.length == 64 && l.all fun c => c.isDigit || 'a' ≤ c && c ≤ 'f'

/-- the image a text designates, if it is a valid reference -/
def designates (s : String) : Option Designated :=
  let r := ImageRef.split s.toList
  if r.valid && !isIdentifier s.toList then some r.designated else none

/-- the image that docker pulls where it is given a name and a tag, which may be a digest: the name is a reference, and
gets the tag -/
def pulledImage (name tag : String) : Option Designated :=
  let r := ImageRef.split name.toList
  if r.valid && !isIdentifier name.toList then
    if ImageRef.validDigest tag.toList then some { r with tag := none, digest := some tag.toList }.designated
    else if ImageRef.validTag tag.toList then some { r with tag := some tag.toList }.designated
    else none
  else none

example : designates "nginx" =
    some ⟨"docker.io".toList, ["library".toList, "nginx".toList], some "latest".toList, none⟩ := by
  decide

example : designates "Registry.io:5000/team/app:RC1" =
    some ⟨"registry.io:5000".toList, ["team".toList, "app".toList], some "RC1".toList, none⟩ := by
  decide

/-! ## Letter case -/

/-- the lower case of a character is the character, or it is an upper-case letter -/
theorem toLower_cases (c : Char) : c.toLower = c ∨ c.isUpper = true ∧ c.toLower.toNat = c.toNat + 32 := by
  unfold Char.toLower
  split
  · next h =>
    refine .inr ⟨by simpa [Char.isUpper] using h, ?_⟩
    obtain ⟨h₁, h₂⟩ := h
    rw [ge_iff_le, UInt32.le_iff_toNat_le] at h₁
    rw [UInt32.le_iff_toNat_le] at h₂
    have hA : 'A'.val.toNat = 65 := rfl
    have hZ : 'Z'.val.toNat = 90 := rfl
    change (c.val + ('a'.val - 'A'.val)).toNat = c.val.toNat + 32
    rw [UInt32.toNat_add]
    have : ('a'.val - 'A'.val).toNat = 32 := rfl
    omega
  · exact .inl rfl

theorem isUpper_iff (c : Char) : c.isUpper = true ↔ 65 ≤ c.toNat ∧ c.toNat ≤ 90 := by
  simp only [Char.isUpper, decide_eq_true_eq, ge_iff_le, UInt32.le_iff_toNat_le]
  rfl

theorem isLower_iff (c : Char) : c.isLower = true ↔ 97 ≤ c.toNat ∧ c.toNat ≤ 122 := by
  simp only [Char.isLower, Bool.and_eq_true, decide_eq_true_eq, ge_iff_le, UInt32.le_iff_toNat_le]
  rfl

theorem isDigit_iff (c : Char) : c.isDigit = true ↔ 48 ≤ c.toNat ∧ c.toNat ≤ 57 := by
  simp only [Char.isDigit, Bool.and_eq_true, decide_eq_true_eq, ge_iff_le, UInt32.le_iff_toNat_le]
  rfl

theorem toLower_of_not_isUpper {c : Char} (h : c.isUpper = false) : c.toLower = c := by
  rcases toLower_cases c with hc | ⟨hc, -⟩
  · exact hc
  · rw [h] at hc
    cases hc

/-- a character that is not a lower-case letter is only its own lower case -/
theorem toLower_eq_iff {d : Char} (hlower : d.isLower = false) (hupper : d.isUpper = false) (c : Char) :
    c.toLower = d ↔ c = d := by
  constructor
  · intro h
    rcases toLower_cases c with hc | ⟨hc, hn⟩
    · rw [← hc, h]
    · rw [isUpper_iff] at hc
      have hd : d.isLower = true := (isLower_iff d).2 (by rw [← h]; omega)
      rw [hlower] at hd
      cases hd
  · rintro rfl
    exact toLower_of_not_isUpper hupper

@[simp] theorem isDigit_toLower (c : Char) : c.toLower.isDigit = c.isDigit := by
  rcases toLower_cases c with hc | ⟨hc, hn⟩
  · rw [hc]
  · rw [isUpper_iff] at hc
    rw [Bool.eq_iff_iff, isDigit_iff, isDigit_iff]
    omega

@[simp] theorem isAlphanum_toLower (c : Char) : c.toLower.isAlphanum = c.isAlphanum := by
  rcases toLower_cases c with hc | ⟨hc, hn⟩
  · rw [hc]
  · have hl : c.toLower.isLower = true := by
      rw [isUpper_iff] at hc
      rw [isLower_iff]
      omega
    simp [Char.isAlphanum, Char.isAlpha, hc, hl]

theorem lower_lower (l : List Char) : lower (lower l) = lower l := by
  rw [lower, lower, List.map_map]
  exact List.map_congr_left fun c _ => c.toLower_toLower_eq_toLower

/-! ## What `parse_name` makes of a text -/

theorem parseName_eq_some_iff {s name tag : String} :
    parseName s = some (name, tag) ↔
      ∃ l r, s.toList.splitOn ':' = [l, r] ∧ name = String.ofList (lower l) ∧ tag = String.ofList (lower r) := by
  have hlower (l : List Char) : (String.ofList l).toLower = String.ofList (lower l) :=
    String.toList_inj.1 (by simp [String.toLower, lower])
  unfold parseName
  constructor
  · intro h
    split at h
    · next l r heq =>
      obtain ⟨l', rest, hl, rfl, hrest⟩ := List.map_eq_cons_iff.1 heq
      obtain ⟨r', rest', rfl, rfl, hnil⟩ := List.map_eq_cons_iff.1 hrest
      rw [List.map_eq_nil_iff.1 hnil] at hl
      obtain ⟨rfl, rfl⟩ := Prod.mk.inj (Option.some.inj h)
      exact ⟨l', r', hl, hlower l', hlower r'⟩
    · cases h
  · rintro ⟨l, r, hs, rfl, rfl⟩
    rw [hs]
    simp [hlower]

/-- joined again, the pair is the text in lower case -/
theorem joined_of_parseName {s name tag : String} (h : parseName s = some (name, tag)) :
    (name ++ ":" ++ tag).toList = lower s.toList := by
  obtain ⟨l, r, hs, rfl, rfl⟩ := parseName_eq_some_iff.1 h
  obtain ⟨-, -, hjoin⟩ := splitOn_pair.1 hs
  simp [← hjoin, lower]

theorem exists_parseName_iff (s : String) : (∃ name tag, parseName s = some (name, tag)) ↔ s.toList.count ':' = 1 := by
  have hlen := length_splitOn ':' s.toList
  constructor
  · rintro ⟨name, tag, h⟩
    obtain ⟨l, r, hs, -⟩ := parseName_eq_some_iff.1 h
    rw [hs] at hlen
    simpa using hlen.symm
  · intro h
    rw [h] at hlen
    obtain ⟨l, r, hs⟩ := List.length_eq_two.1 hlen
    exact ⟨_, _, parseName_eq_some_iff.2 ⟨l, r, hs, rfl, rfl⟩⟩

/-! ## References in lower case -/

namespace ImageRef

/-- the reference in lower case: a registry that is none any more is the first part of the path -/
def lowered (r : ImageRef) : ImageRef :=
  let path := r.path.map lower
  match r.host with
  | none => ⟨none, path, r.tag.map lower, r.digest.map lower⟩
  | some host =>
    if isHost (lower host) then ⟨some (lower host), path, r.tag.map lower, r.digest.map lower⟩
    else ⟨none, lower host :: path, r.tag.map lower, r.digest.map lower⟩

theorem lower_of_not_isHost {l : List Char} (h : isHost l = false) : lower l = l := by
  simp only [isHost, Bool.or_eq_false_iff, bne_eq_false_iff_eq] at h
  exact h.2

theorem cutAt_lower {d : Char} (hlower : d.isLower = false) (hupper : d.isUpper = false) (l : List Char) :
    cutAt d (lower l) = (lower (cutAt d l).1, (cutAt d l).2.map lower) := cutAt_map (toLower_eq_iff hlower hupper) l

theorem splitOn_lower {d : Char} (hlower : d.isLower = false) (hupper : d.isUpper = false) (l : List Char) :
    (lower l).splitOn d = (l.splitOn d).map lower := splitOn_map (toLower_eq_iff hlower hupper) l

/-- lower case changes no cut -/
theorem split_lower (s : List Char) : split (lower s) = (split s).lowered := by
  have hlast (parts : List (List Char)) : (parts.map lower).getLast?.getD [] = lower (parts.getLast?.getD []) := by
    rw [List.getLast?_map]
    cases parts.getLast? <;> rfl
  unfold split
  simp only [cutAt_lower (d := '@') rfl rfl, splitOn_lower (d := '/') rfl rfl, hlast, cutAt_lower (d := ':') rfl rfl,
    ← List.map_dropLast]
  cases ((cutAt '@' s).1.splitOn '/').dropLast with
  | nil => rfl
  | cons first middle =>
    change (if isHost (lower first) then _ else _) = _
    cases h : isHost first with
    | false => simp [lower_of_not_isHost h, h, lowered]
    | true => simp [h, lowered]

/-- no character of the list is an upper-case letter -/
theorem lower_eq_of_forall {l : List Char} (h : ∀ c ∈ l, c.isUpper = false) : lower l = l :=
  (List.map_congr_left fun c hc => toLower_of_not_isUpper (h c hc)).trans (List.map_id l)

theorem isUpper_of_lowerAlphanum {c : Char} (h : lowerAlphanum c = true) : c.isUpper = false := by
  rw [Bool.eq_false_iff, Ne, isUpper_iff]
  rw [lowerAlphanum, Bool.or_eq_true, isLower_iff, isDigit_iff] at h
  omega

theorem isUpper_of_separator {l : List Char} (h : separator l = true) {c : Char} (hc : c ∈ l) : c.isUpper = false := by
  simp only [separator, Bool.or_eq_true, beq_iff_eq, List.all_eq_true] at h
  rcases h with ((rfl | rfl) | rfl) | h
  · obtain rfl := List.mem_singleton.1 hc
    rfl
  · obtain rfl := List.mem_singleton.1 hc
    rfl
  · simp only [List.mem_cons, List.not_mem_nil, or_false, or_self] at hc
    subst hc
    rfl
  · rw [h c hc]
    rfl

/-- the path of a reference has no upper-case letter -/
theorem lower_of_pathComponent {l : List Char} (h : pathComponent l = true) : lower l = l := by
  refine lower_eq_of_forall fun c hc => ?_
  rw [← List.flatten_splitBy (fun a b => lowerAlphanum a == lowerAlphanum b) l] at hc
  obtain ⟨run, hrun, hc⟩ := List.mem_flatten.1 hc
  rw [pathComponent, Bool.and_eq_true, List.all_eq_true] at h
  rcases Bool.or_eq_true_iff.1 (h.2 run hrun) with hall | hsep
  · exact isUpper_of_lowerAlphanum (List.all_eq_true.1 hall c hc)
  · exact isUpper_of_separator hsep hc

/-- and neither has a digest -/
theorem lower_of_validDigest {l : List Char} (h : validDigest l = true) : lower l = l := by
  unfold validDigest at h
  split at h
  · next algorithm hex heq =>
    rw [Bool.and_eq_true, List.contains_iff_mem] at h
    have halg : lower algorithm = algorithm := by
      have hmem := h.1
      simp only [algorithms, List.mem_cons, Prod.mk.injEq, List.not_mem_nil, or_false] at hmem
      rcases hmem with ⟨rfl, -⟩ | ⟨rfl, -⟩ | ⟨rfl, -⟩ <;> rfl
    have hhex : lower hex = hex := lower_eq_of_forall fun c hc => by
      have hc := List.all_eq_true.1 h.2 c hc
      rw [Bool.eq_false_iff, Ne, isUpper_iff]
      rw [Bool.or_eq_true, isDigit_iff, Bool.and_eq_true, decide_eq_true_eq, decide_eq_true_eq] at hc
      have h1 : 'a' ≤ c → 97 ≤ c.toNat := fun h => h
      rcases hc with hc | hc
      · omega
      · have := h1 hc.1
        omega
    rw [← cutAt_eq_some heq]
    calc lower (algorithm ++ ':' :: hex) = lower algorithm ++ ':' :: lower hex := by simp [lower]
      _ = algorithm ++ ':' :: hex := by rw [halg, hhex]
  · cases h

@[simp] theorem domainComponent_lower (l : List Char) : domainComponent (lower l) = domainComponent l := by
  have hdash (c : Char) : (c.toLower == '-') = (c == '-') := by
    rw [Bool.eq_iff_iff, beq_iff_eq, beq_iff_eq, toLower_eq_iff rfl rfl]
  simp [domainComponent, lower, List.getLast?_map, List.head?_map, List.all_map, Function.comp_def, Option.any_map, hdash]

@[simp] theorem port_lower (l : List Char) : port (lower l) = port l := by
  cases l with
  | nil => rfl
  | cons c l => simp [port, lower, List.all_map, Function.comp_def, bne]

@[simp] theorem isHexDigit_toLower (c : Char) : isHexDigit c.toLower = isHexDigit c := by
  rw [isHexDigit, isHexDigit, isDigit_toLower, Char.toLower_toLower_eq_toLower]

theorem validName_lower (l : List Char) : validName (lower l) = validName l := by
  rw [validName, cutAt_lower rfl rfl, splitOn_lower rfl rfl]
  simp [validName, List.all_map, Function.comp_def, Option.all_map]

theorem validAddress_lower (l : List Char) : validAddress (lower l) = validAddress l := by
  have hcolon (c : Char) : (c.toLower == ':') = (c == ':') := by
    rw [Bool.eq_iff_iff, beq_iff_eq, beq_iff_eq, toLower_eq_iff rfl rfl]
  rw [validAddress, validAddress, cutAt_lower rfl rfl]
  rcases cutAt ']' l with ⟨address, _ | rest⟩
  · rfl
  · have haddress : (lower address != []) = (address != []) := by cases address <;> rfl
    have hall : (lower address).all (fun c => isHexDigit c || c == ':') =
        address.all fun c => isHexDigit c || c == ':' := by
      simp [lower, List.all_map, Function.comp_def, hcolon]
    have hrest : (lower rest == [] || (lower rest).head? == some ':' && port (lower rest).tail) =
        (rest == [] || rest.head? == some ':' && port rest.tail) := by
      cases rest with
      | nil => rfl
      | cons c rest =>
        have htail : port (lower (c :: rest)).tail = port rest := port_lower rest
        have hhead : ((lower (c :: rest)).head? == some ':') = ((c :: rest).head? == some ':') := by
          simpa [lower] using hcolon c
        rw [htail, hhead]
        rfl
    simp only [Option.map_some, haddress, hall, hrest]

/-- a host is one in lower case -/
theorem validHost_lower (l : List Char) : validHost (lower l) = validHost l := by
  have hname {c : Char} (hc : c ≠ '[') (l : List Char) : validHost (c :: l) = validName (c :: l) := by
    unfold validHost
    split
    · next heq => exact absurd (List.cons.inj heq).1 hc
    · rfl
  cases l with
  | nil => rfl
  | cons c l =>
    by_cases hc : c = '['
    · subst hc
      exact validAddress_lower l
    · have hlc : c.toLower ≠ '[' := fun h => hc ((toLower_eq_iff rfl rfl c).1 h)
      calc validHost (lower (c :: l)) = validName (lower (c :: l)) := hname hlc (lower l)
        _ = validName (c :: l) := validName_lower _
        _ = validHost (c :: l) := (hname hc l).symm

/-- the registry is the same one in lower case: it is still a registry, and not the default one by another name -/
def KeepsHost (r : ImageRef) (host : List Char) : Prop :=
  lower host = host ∨
    isHost (lower host) = true ∧ lower host ≠ legacyHub ∧ (lower host = dockerHub → r.path.length ≠ 1)

instance (r : ImageRef) (host : List Char) : Decidable (r.KeepsHost host) := inferInstanceAs (Decidable (_ ∨ _))

/-- lower case keeps the tag and the registry of the reference -/
structure Kept (r : ImageRef) : Prop where
  tag : ∀ t, r.tag = some t → lower t = t
  host : ∀ h, r.host = some h → r.KeepsHost h

theorem map_lower_path {r : ImageRef} (hv : r.valid = true) : r.path.map lower = r.path := by
  simp only [valid, Bool.and_eq_true, List.all_eq_true] at hv
  exact (List.map_congr_left fun l hl => lower_of_pathComponent (hv.1.1.2 l hl)).trans (List.map_id _)

theorem map_lower_digest {r : ImageRef} (hv : r.valid = true) : r.digest.map lower = r.digest := by
  cases hd : r.digest with
  | none => rfl
  | some d =>
    simp only [valid, Bool.and_eq_true, hd, Option.all_some] at hv
    rw [Option.map_some, lower_of_validDigest hv.2]

theorem version_tag_iff {r : ImageRef} (path : List (List Char)) (host : Option (List Char)) :
    (⟨host, path, r.tag.map lower, r.digest⟩ : ImageRef).version = r.version ↔ ∀ t, r.tag = some t → lower t = t := by
  cases ht : r.tag with
  | none => simp [version, ht]
  | some t => simp [version, ht]

theorem isHost_of_split {s h : List Char} (hs : (split s).host = some h) : isHost h = true := by
  unfold split at hs
  dsimp only at hs
  split at hs
  · cases hs
  · split_ifs at hs with hhost
    obtain rfl := Option.some.inj hs
    exact hhost

/-- the repository is the same one in lower case exactly if the registry is kept -/
theorem repository_lowered_iff {r : ImageRef} (hv : r.valid = true) (hhosts : ∀ h, r.host = some h → isHost h = true) :
    r.lowered.repository = r.repository ↔ ∀ h, r.host = some h → r.KeepsHost h := by
  have hhub : isHost dockerHub = true := by decide
  have hpath := map_lower_path hv
  cases hh : r.host with
  | none => simp [lowered, repository, hh, hpath]
  | some h =>
    suffices r.lowered.repository = r.repository ↔ r.KeepsHost h by simpa using this
    by_cases hl : lower h = h
    · have hlowered : r.lowered.repository = r.repository := by
        simp [lowered, repository, hh, hpath, hl, hhosts h hh]
      simp [hlowered, KeepsHost, hl]
    · have hne : ¬(h = dockerHub ∨ h = legacyHub) := by
        rintro (rfl | rfl)
        · exact hl (by decide)
        · exact hl (by decide)
      have hrepository : r.repository = (lower h, r.path) := by
        rw [repository, hh]
        exact if_neg hne
      rw [hrepository, KeepsHost, or_iff_right hl]
      by_cases hhost : isHost (lower h) = true
      · have hlowered : r.lowered.repository =
            if lower h = dockerHub ∨ lower h = legacyHub then (dockerHub, hubPath r.path)
            else (lower h, r.path) := by
          simp [lowered, repository, hh, hpath, hhost, lower_lower]
        rw [hlowered]
        by_cases h₁ : lower h = dockerHub
        · have hindex : dockerHub ≠ legacyHub := by decide
          simp only [h₁, hhub, true_or, if_true, Prod.mk.injEq, true_and, true_implies, Ne, hindex, not_false_iff,
            hubPath]
          split_ifs with hlen <;> simp [hlen]
        · by_cases h₂ : lower h = legacyHub
          · have hindex : dockerHub ≠ legacyHub := by decide
            simp [h₂, hindex]
          · simp [h₁, h₂, hhost]
      · have hlowered : r.lowered.repository = (dockerHub, hubPath (lower h :: r.path)) := by
          simp [lowered, repository, hh, hpath, hhost]
        have hdiffers : dockerHub ≠ lower h := fun heq => hhost (heq ▸ hhub)
        simp [hlowered, hdiffers, hhost]

theorem valid_lowered {r : ImageRef} (hv : r.valid = true) (hk : r.Kept)
    (hhosts : ∀ h, r.host = some h → isHost h = true) : r.lowered.valid = true := by
  have htag : r.tag.map lower = r.tag := by
    cases ht : r.tag with
    | none => rfl
    | some t => rw [Option.map_some, hk.tag t ht]
  cases hh : r.host with
  | none => simpa [lowered, valid, hh, map_lower_path hv, map_lower_digest hv, htag] using hv
  | some h =>
    have hhost : isHost (lower h) = true := by
      rcases hk.host h hh with hl | hl
      · rw [hl, hhosts h hh]
      · exact hl.1
    simpa [lowered, valid, hh, map_lower_path hv, map_lower_digest hv, htag, hhost, validHost_lower] using hv

/-- a reference designates the same image in lower case exactly if the tag and the registry are kept -/
theorem designated_lowered_iff {r : ImageRef} (hv : r.valid = true) (hhosts : ∀ h, r.host = some h → isHost h = true) :
    r.lowered.valid = true ∧ r.lowered.designated = r.designated ↔ r.Kept := by
  have hdigest : r.lowered.digest = r.digest := by
    rw [← map_lower_digest hv]
    unfold lowered
    split
    · rfl
    · split_ifs <;> rfl
  have hversion : r.lowered.version = r.version ↔ ∀ t, r.tag = some t → lower t = t := by
    rw [← version_tag_iff r.lowered.path r.lowered.host, ← hdigest]
    have htag : r.lowered.tag = r.tag.map lower := by
      unfold lowered
      split
      · rfl
      · split_ifs <;> rfl
    rw [← htag]
  have hdesignated : r.lowered.designated = r.designated ↔
      r.lowered.repository = r.repository ∧ r.lowered.version = r.version := by
    simp [designated, hdigest, Prod.ext_iff, and_assoc]
  rw [hdesignated, hversion, repository_lowered_iff hv hhosts]
  constructor
  · rintro ⟨-, hhost, htag⟩
    exact ⟨htag, hhost⟩
  · intro hk
    exact ⟨valid_lowered hv hk hhosts, hk.host, hk.tag⟩

end ImageRef

/-- the text in lower case designates the same image exactly if it keeps its tag and its registry -/
theorem designates_lower_iff {s t : String} {image : Designated} (hs : designates s = some image)
    (ht : t.toList = lower s.toList) (hid : isIdentifier t.toList = false) :
    designates t = some image ↔ (ImageRef.split s.toList).Kept := by
  simp only [designates] at hs
  split_ifs at hs with hv
  rw [Bool.and_eq_true] at hv
  rw [← ImageRef.designated_lowered_iff hv.1 fun h => ImageRef.isHost_of_split, ← Option.some.inj hs, designates, hid, ht,
    ImageRef.split_lower]
  simp

/-! ## The name and the tag -/

namespace ImageRef

theorem split_tag (s : List Char) :
    (split s).tag = (cutAt ':' (((cutAt '@' s).1.splitOn '/').getLast?.getD [])).2 := by
  unfold split
  dsimp only
  split
  · rfl
  · split_ifs <;> rfl

theorem split_digest (s : List Char) : (split s).digest = (cutAt '@' s).2 := by
  unfold split
  dsimp only
  split
  · rfl
  · split_ifs <;> rfl

/-- what follows a `:` is the tag, if it has no `/` and there is no `@` -/
theorem split_tagged {l r : List Char} (hl : ':' ∉ l) (hslash : '/' ∉ r) (hat : '@' ∉ l ++ ':' :: r) :
    split (l ++ ':' :: r) = { split l with tag := some r } := by
  have hatl : '@' ∉ l := fun h => hat (List.mem_append_left _ h)
  obtain ⟨init, last, hparts⟩ := exists_splitOn_concat '/' l
  have hlast : ':' ∉ last := fun h => hl (mem_of_mem_last hparts h)
  have hslash' : '/' ∉ ':' :: r := by simp [hslash]
  unfold split
  simp only [cutAt_of_notMem hat, cutAt_of_notMem hatl, splitOn_append hparts hslash', hparts, List.getLast?_concat,
    Option.getD_some, cutAt_append hlast, cutAt_of_notMem hlast, List.dropLast_concat]
  cases init with
  | nil => rfl
  | cons first middle =>
    dsimp only
    split_ifs <;> rfl

/-- the tag is what follows the only `:`, and there is no digest -/
theorem eq_of_tag {s t : List Char} (hv : (split s).valid = true) (hcolon : s.count ':' = 1)
    (htag : (split s).tag = some t) : ∃ l, s = l ++ ':' :: t ∧ '/' ∉ t ∧ '@' ∉ s := by
  obtain ⟨init, last, hparts⟩ := exists_splitOn_concat '/' (cutAt '@' s).1
  rw [split_tag, hparts, List.getLast?_concat, Option.getD_some] at htag
  have hlast : (cutAt ':' last).1 ++ ':' :: t = last := cutAt_eq_some (Prod.ext rfl htag)
  have hslash : '/' ∉ t := by
    intro h
    have hmem : last ∈ (cutAt '@' s).1.splitOn '/' := by simp [hparts]
    refine notMem_of_mem_splitOn hmem ?_
    rw [← hlast]
    simp [h]
  have hnamed : ':' ∈ (cutAt '@' s).1 := mem_of_mem_last hparts (by rw [← hlast]; simp)
  have hat : '@' ∉ s := by
    apply notMem_of_cutAt
    cases hd : (cutAt '@' s).2 with
    | none => rfl
    | some d =>
      -- a digest has a `:` of its own
      exfalso
      have hdigest : validDigest d = true := by
        simp only [valid, Bool.and_eq_true, split_digest, hd, Option.all_some] at hv
        exact hv.2
      have hmem : ':' ∈ d := by
        by_contra hno
        rw [validDigest, cutAt_of_notMem hno] at hdigest
        cases hdigest
      have hs : (cutAt '@' s).1 ++ '@' :: d = s := cutAt_eq_some (Prod.ext rfl hd)
      have h₁ : 1 ≤ (cutAt '@' s).1.count ':' := List.count_pos_iff.2 hnamed
      have h₂ : 1 ≤ d.count ':' := List.count_pos_iff.2 hmem
      rw [← hs, List.count_append, List.count_cons_of_ne (by decide)] at hcolon
      omega
  rw [cutAt_of_notMem hat, ← hlast] at hparts
  obtain ⟨l, hl, -⟩ := eq_append_of_splitOn hparts
  exact ⟨l, hl, hslash, hat⟩

/-- no character of a tag is one that separates the parts of a reference -/
theorem notMem_of_validTag {l : List Char} (h : validTag l = true) {c : Char} (halpha : c.isAlphanum = false)
    (hother : c ≠ '_' ∧ c ≠ '.' ∧ c ≠ '-') : c ∉ l := by
  intro hc
  rw [validTag, Bool.and_eq_true, List.all_eq_true] at h
  have hall := h.2 c hc
  simp [halpha, hother.1, hother.2.1, hother.2.2] at hall

end ImageRef

theorem mem_lower_iff {d : Char} (hl : d.isLower = false) (hu : d.isUpper = false) (l : List Char) :
    d ∈ lower l ↔ d ∈ l := by
  rw [lower, List.mem_map]
  constructor
  · rintro ⟨c, hc, hcd⟩
    exact (toLower_eq_iff hl hu c).1 hcd ▸ hc
  · intro hd
    exact ⟨d, hd, (toLower_eq_iff hl hu d).2 rfl⟩

/-- with an id in place of the name docker looks for no image -/
theorem isIdentifier_of_mem {l : List Char} (h : ':' ∈ l) : isIdentifier l = false := by
  rw [Bool.eq_false_iff]
  intro hid
  rw [isIdentifier, Bool.and_eq_true, List.all_eq_true] at hid
  have hcolon := hid.2 ':' h
  revert hcolon
  decide

/-- where the two parts are a name and its tag, docker pulls what they designate when they are joined again -/
theorem pulledImage_eq {name tag : String} (hname : ':' ∉ name.toList) (htag : ':' ∉ tag.toList)
    (hslash : '/' ∉ tag.toList) (hat : '@' ∉ name.toList ++ ':' :: tag.toList)
    (hid : isIdentifier name.toList = false) : pulledImage name tag = designates (name ++ ":" ++ tag) := by
  have hjoin : (name ++ ":" ++ tag).toList = name.toList ++ ':' :: tag.toList := by simp
  have hdigest : ImageRef.validDigest tag.toList = false := by
    rw [ImageRef.validDigest, cutAt_of_notMem htag]
  have hnone : (ImageRef.split name.toList).tag = none := by
    have hatn : '@' ∉ name.toList := fun h => hat (List.mem_append_left _ h)
    obtain ⟨init, last, hparts⟩ := exists_splitOn_concat '/' name.toList
    have hlast : ':' ∉ last := fun h => hname (mem_of_mem_last hparts h)
    rw [ImageRef.split_tag, cutAt_of_notMem hatn, hparts, List.getLast?_concat, Option.getD_some, cutAt_of_notMem hlast]
  have hcolon : ':' ∈ name.toList ++ ':' :: tag.toList := by simp
  unfold pulledImage designates
  rw [hjoin, ImageRef.split_tagged hname hslash hat]
  simp only [hid, isIdentifier_of_mem hcolon, hdigest, Bool.not_false, Bool.and_true, Bool.false_eq_true, if_false]
  have hvalid : ({ ImageRef.split name.toList with tag := some tag.toList } : ImageRef).valid =
      ((ImageRef.split name.toList).valid && ImageRef.validTag tag.toList) := by
    simp only [ImageRef.valid, hnone, Option.all_none, Option.all_some, Bool.and_true]
    exact Bool.and_right_comm _ _ _
  rw [hvalid]
  cases (ImageRef.split name.toList).valid <;> cases ImageRef.validTag tag.toList <;> rfl

/-- docker pulls nothing unless the second part is a tag of the first -/
theorem tag_of_pulledImage {name tag : String} {image : Designated} (hname : ':' ∉ name.toList)
    (htag : ':' ∉ tag.toList) (h : pulledImage name tag = some image) :
    '/' ∉ tag.toList ∧ '@' ∉ name.toList ++ ':' :: tag.toList ∧ isIdentifier name.toList = false := by
  have hdigest {l : List Char} (hl : ':' ∉ l) : ImageRef.validDigest l = false := by
    rw [ImageRef.validDigest, cutAt_of_notMem hl]
  simp only [pulledImage, hdigest htag, Bool.false_eq_true, if_false] at h
  split_ifs at h with hv ht
  rw [Bool.and_eq_true, Bool.not_eq_true'] at hv
  refine ⟨ImageRef.notMem_of_validTag ht rfl (by decide), fun hat => ?_, hv.2⟩
  rcases List.mem_append.1 hat with hat | hat
  · -- the name would have a digest, which has a `:`
    obtain ⟨l, d, hl, hd⟩ := List.eq_append_cons_of_mem hat
    have hnd : ':' ∉ d := fun hmem => hname (by rw [hl]; simp [hmem])
    have hvalid := hv.1
    simp only [ImageRef.valid, Bool.and_eq_true, ImageRef.split_digest, hl, cutAt_append hd, Option.all_some,
      hdigest hnd] at hvalid
    exact Bool.false_ne_true hvalid.2
  · rcases List.mem_cons.1 hat with hat | hat
    · cases hat
    · exact ImageRef.notMem_of_validTag ht rfl (by decide) hat

/-! ## What is pulled -/

/-- the policy lets `download` pull -/
def Pulls (E : Env) (s : String) : ImagePullPolicy → Prop
  | .always => True
  | .ifNotPresent => E.imagePresent s = false
  | .never => False

theorem pull_issued (E : Env) (s : String) (secret : Option String) {policy : ImagePullPolicy}
    (hpolicy : Pulls E s policy) {name tag : String} (hname : parseName s = some (name, tag)) (w : World) :
    Issued w (download E s secret policy w).2 (.createImage w.draws name tag secret) := by
  have hcall : Issued w (await E (Docker.callInert E (.createImage w.draws name tag secret)) w).2
      (.createImage w.draws name tag secret) := by
    have hlog (d : Docker) : ∃ ok, (d.callInert E (.createImage w.draws name tag secret)).2.log =
        d.log ++ [⟨.createImage w.draws name tag secret, none, ok⟩] := by
      unfold Docker.callInert
      split <;> exact ⟨_, rfl⟩
    obtain ⟨ok, h⟩ := hlog (suspend E w).2.docker
    exact Issued.mono (logs_suspend (S := fun _ => True) w) ⟨[⟨_, none, ok⟩], h, _, List.mem_singleton_self _, rfl⟩
      (Std.Refl.refl _)
  have hpull : Issued w (download.pull E s secret w).2 (.createImage w.draws name tag secret) := by
    unfold download.pull
    rw [hname]
    dsimp only
    rw [Prog.get_bind]
    refine Issued.bind (E := E) hcall fun r => ?_
    cases r with
    | ok _ => exact Prog.keeps_pure _
    | error _ => exact Prog.keeps_fail _
  cases policy with
  | never => exact hpolicy.elim
  | always => exact hpull
  | ifNotPresent =>
    have heq : download E s secret .ifNotPresent = download.pull E s secret := by
      have hp : E.imagePresent s = false := hpolicy
      simp [download, hp]
    rwa [heq]

/-- what `parse_name` cuts is what it returns in lower case -/
theorem cut_of_parseName {s name tag : String} (h : parseName s = some (name, tag)) :
    ∃ l r, s.toList = l ++ ':' :: r ∧ ':' ∉ l ∧ ':' ∉ r ∧ name.toList = lower l ∧ tag.toList = lower r := by
  obtain ⟨l, r, hs, rfl, rfl⟩ := parseName_eq_some_iff.1 h
  obtain ⟨hl, hr, hjoin⟩ := splitOn_pair.1 hs
  exact ⟨l, r, hjoin.symm, hl, hr, by simp, by simp⟩

/-- the reference has a tag, which has its only `:`, and its name is no image id -/
structure Tagged (s : List Char) : Prop where
  colon : s.count ':' = 1
  tag : (ImageRef.split s).tag.isSome
  name : isIdentifier (lower (cutAt ':' s).1) = false

/-- **The image a reference designates is pulled** exactly if the reference has a tag and no other `:`, its name is no
image id, the tag has no upper-case letter and the registry is the same one in lower case. -/
theorem image_kept_iff (E : Env) (w : World) {s : String} {image : Designated} (hs : designates s = some image)
    (secret : Option String) (policy : ImagePullPolicy) :
    (∃ name tag, parseName s = some (name, tag) ∧ designates (name ++ ":" ++ tag) = some image ∧
      pulledImage name tag = some image ∧
      (Pulls E s policy → Issued w (download E s secret policy w).2 (.createImage w.draws name tag secret))) ↔
    Tagged s.toList ∧ (ImageRef.split s.toList).Kept := by
  have hvalid : (ImageRef.split s.toList).valid = true := by
    simp only [designates] at hs
    split_ifs at hs with hv
    exact (Bool.and_eq_true_iff.1 hv).1
  have hjoined {name tag : String} (hname : parseName s = some (name, tag)) :
      designates (name ++ ":" ++ tag) = some image ↔ (ImageRef.split s.toList).Kept :=
    designates_lower_iff hs (joined_of_parseName hname) (isIdentifier_of_mem (by simp))
  constructor
  · rintro ⟨name, tag, hname, hsame, hpulled, -⟩
    obtain ⟨l, r, hcut, hl, hr, hnamel, htagr⟩ := cut_of_parseName hname
    obtain ⟨hslash, hat, hid⟩ := tag_of_pulledImage (by rwa [hnamel, mem_lower_iff rfl rfl])
      (by rwa [htagr, mem_lower_iff rfl rfl]) hpulled
    rw [htagr, mem_lower_iff rfl rfl] at hslash
    have hat' : '@' ∉ l ++ ':' :: r := by
      rw [hnamel, htagr] at hat
      simpa [mem_lower_iff] using hat
    refine ⟨⟨(exists_parseName_iff s).1 ⟨name, tag, hname⟩, ?_, ?_⟩, (hjoined hname).1 hsame⟩
    · rw [hcut, ImageRef.split_tagged hl hslash hat']
      rfl
    · rw [hcut, cutAt_append hl, ← hnamel]
      exact hid
  · rintro ⟨⟨hcolon, htag, hid⟩, hkept⟩
    obtain ⟨name, tag, hname⟩ := (exists_parseName_iff s).2 hcolon
    have hsame := (hjoined hname).2 hkept
    refine ⟨name, tag, hname, hsame, ?_, fun hpolicy => pull_issued E s secret hpolicy hname w⟩
    obtain ⟨l, r, hcut, hl, hr, hnamel, htagr⟩ := cut_of_parseName hname
    obtain ⟨t, ht⟩ := Option.isSome_iff_exists.1 htag
    obtain ⟨l', hcut', hslash, hat⟩ := ImageRef.eq_of_tag hvalid hcolon ht
    -- the text has one `:`, so both cuts are the same
    have hl' : ':' ∉ l' := by
      intro h
      have := List.count_pos_iff.2 h
      rw [hcut', List.count_append, List.count_cons_self] at hcolon
      omega
    have hcuts := cutAt_append hl r
    rw [← hcut, hcut', cutAt_append hl'] at hcuts
    obtain ⟨rfl, hrt⟩ := Prod.mk.inj hcuts
    obtain rfl := Option.some.inj hrt
    rw [hcut, cutAt_append hl, ← hnamel] at hid
    rw [pulledImage_eq, hsame]
    · rwa [hnamel, mem_lower_iff rfl rfl]
    · rwa [htagr, mem_lower_iff rfl rfl]
    · rwa [htagr, mem_lower_iff rfl rfl]
    · rw [hcut] at hat
      rw [hnamel, htagr]
      simpa [mem_lower_iff] using hat
    · exact hid

/-- a daemon that has done nothing yet -/
def freshWorld : World where
  docker := ⟨fun _ => none, 0, []⟩
  db := ⟨[], fun _ => none, fun _ => none, fun _ => none, [], fun _ => none, []⟩
  removals := []
  draws := 0
  ticks := 0

/-- a tagged image of a registry without a port -/
theorem image_kept_tagged :
    ∃ name tag, parseName "Registry.io/team/app:1.2" = some (name, tag) ∧
      designates (name ++ ":" ++ tag) =
        some ⟨"registry.io".toList, ["team".toList, "app".toList], some "1.2".toList, none⟩ ∧
      pulledImage name tag =
        some ⟨"registry.io".toList, ["team".toList, "app".toList], some "1.2".toList, none⟩ ∧
      (Pulls Env.plain "Registry.io/team/app:1.2" .always →
        Issued freshWorld (download Env.plain "Registry.io/team/app:1.2" none .always freshWorld).2
          (.createImage 0 name tag none)) :=
  (image_kept_iff Env.plain freshWorld (s := "Registry.io/team/app:1.2") (by decide +kernel) none .always).2
    ⟨⟨by decide, by decide +kernel, by decide +kernel⟩, fun t ht => by
      obtain rfl : "1.2".toList = t := Option.some.inj (ht ▸ by decide +kernel)
      decide, fun h hh => by
      obtain rfl : "Registry.io".toList = h := Option.some.inj (hh ▸ by decide +kernel)
      decide +kernel⟩

/-- an image without a tag is refused -/
theorem untagged_refused :
    ¬ ∀ s image, designates s = some image →
      ∃ name tag, parseName s = some (name, tag) ∧ designates (name ++ ":" ++ tag) = some image := by
  intro h
  have hvalid : designates "alpine" =
      some ⟨"docker.io".toList, ["library".toList, "alpine".toList], some "latest".toList, none⟩ := by
    decide +kernel
  obtain ⟨name, tag, hname, -⟩ := h "alpine" _ hvalid
  have hnone : parseName "alpine" = none := by decide +kernel
  rw [hnone] at hname
  cases hname

end Nanocl.Runtime

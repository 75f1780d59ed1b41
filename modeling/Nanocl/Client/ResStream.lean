/-
The streams of JSON values between the daemon and its clients. The daemon sends each value as one line
(`utils/stream.rs`, `models/raw_emitter.rs`); the client collects the chunks that arrive and parses what it has whenever
the last byte of a chunk ends a line (`http_client.rs::res_stream`).

serde_json is a parameter (`JsonCodec`): what it writes has no line end in it, what it wrote is read back in spite of the
blanks after it, and a second value after the first is an error.

- `resStream_stuck`: once a payload holds a whole line and a part of the next one, nothing more is returned.
- `frames_iff`: the values arrive as they were sent exactly if no chunk holds a line feed before its last byte.
- `two_lines_in_a_chunk`: two values that arrive together are an error.
-/
import Mathlib.Data.List.Basic
import Mathlib.Tactic.Common

namespace Nanocl.Client

abbrev Bytes := List UInt8

/-- `b'\n'` -/
def lineFeed : UInt8 := 10

/-- how the daemon ends a line: events with LF, the items of the other streams with CRLF -/
inductive LineEnd where
  | lf | crlf
deriving DecidableEq, Repr

def LineEnd.bytes : LineEnd → Bytes
  | lf => [lineFeed]
  | crlf => [13, lineFeed]

/-- serde_json at one type -/
structure JsonCodec (ν : Type) where
  toVec : ν → Bytes
  fromSlice : Bytes → Except String ν
  lineFeed_notMem : ∀ v, lineFeed ∉ toVec v
  fromSlice_line : ∀ v (e : LineEnd), fromSlice (toVec v ++ e.bytes) = .ok v
  fromSlice_trailing : ∀ v (e : LineEnd) v' rest, ∃ msg, fromSlice (toVec v ++ e.bytes ++ (toVec v' ++ rest)) = .error msg

variable {ν : Type} (C : JsonCodec ν)

/-- `HttpError::internal_server_error` -/
structure HttpError where
  status : ℕ
  msg : String
deriving DecidableEq

/-- `res_stream` from a payload on, over the items of the response -/
def resStream : Bytes → List (Except String Bytes) → List (Except HttpError ν)
  | _, [] => []
  | _, .error e :: _ => [.error ⟨500, "Unable to read stream: " ++ e⟩]
  | payload, .ok bytes :: items =>
    let payload := payload ++ bytes
    if bytes.getLast? ≠ some lineFeed then resStream payload items
    else
      match C.fromSlice payload with
      | .error e => [.error ⟨500, "Unable to parse stream: " ++ e⟩]
      | .ok t => .ok t :: resStream [] items

/-- the line of a value -/
def line (l : ν × LineEnd) : Bytes := C.toVec l.1 ++ l.2.bytes

/-- what the daemon sends -/
def sent (lines : List (ν × LineEnd)) : Bytes := lines.flatMap (line C)

variable {C}

@[simp] theorem sent_cons (l : ν × LineEnd) (lines : List (ν × LineEnd)) : sent C (l :: lines) = line C l ++ sent C lines :=
  List.flatMap_cons

/-! ## Lines -/

/-- a line has one line feed, at its end -/
theorem line_eq (l : ν × LineEnd) : ∃ body, line C l = body ++ [lineFeed] ∧ lineFeed ∉ body := by
  obtain ⟨v, e⟩ := l
  have hv := C.lineFeed_notMem v
  cases e with
  | lf => exact ⟨C.toVec v, rfl, hv⟩
  | crlf =>
    refine ⟨C.toVec v ++ [13], by simp [line, LineEnd.bytes], ?_⟩
    simp only [List.mem_append, List.mem_singleton, not_or]
    exact ⟨hv, by decide⟩

theorem lineFeed_mem_line (l : ν × LineEnd) : lineFeed ∈ line C l := by
  obtain ⟨body, hline, -⟩ := line_eq (C := C) l
  simp [hline]

/-- what has arrived, if it holds a line feed, begins with the first line -/
theorem split_sent {lines : List (ν × LineEnd)} {p s : Bytes} (h : p ++ s = sent C lines) (hp : lineFeed ∈ p) :
    ∃ l rest q, lines = l :: rest ∧ p = line C l ++ q ∧ q ++ s = sent C rest := by
  cases lines with
  | nil =>
    have hnil : p = [] := (List.append_eq_nil_iff.1 h).1
    rw [hnil] at hp
    cases hp
  | cons l rest =>
    rw [sent_cons] at h
    rcases List.append_eq_append_iff.1 h with ⟨a, hline, hs⟩ | ⟨q, hpq, hrest⟩
    · -- the payload is a part of the first line, and holds its last byte
      obtain ⟨body, hbody, hno⟩ := line_eq (C := C) l
      have ha : a = [] := by
        by_contra hne
        obtain ⟨a', b, rfl⟩ := List.eq_nil_or_concat a |>.resolve_left hne
        rw [hbody, List.concat_eq_append, ← List.append_assoc] at hline
        have hpre := (List.append_inj' hline rfl).1
        exact hno (hpre ▸ List.mem_append_left _ hp)
      subst ha
      exact ⟨l, rest, [], rfl, by simpa using hline.symm, by simpa using hs⟩
    · exact ⟨l, rest, q, rfl, hpq, hrest.symm⟩

/-! ## The decoder -/

/-- the chunk that ends a second line is an error: `from_slice` takes one value only -/
theorem stuck_error {l : ν × LineEnd} {lines : List (ν × LineEnd)} {c : Bytes} {chunks : List Bytes} {p q : Bytes}
    (hq : q ≠ []) (hpc : p ++ c = line C l ++ q) (h : q ++ chunks.flatten = sent C lines)
    (hlast : c.getLast? = some lineFeed) : ∃ e, resStream C p ((c :: chunks).map .ok) = [.error e] := by
  have hqlast : q.getLast? = some lineFeed := by
    have hlasts := congrArg List.getLast? hpc
    rwa [List.getLast?_append, List.getLast?_append_of_ne_nil _ hq, hlast, Option.some_or, eq_comm] at hlasts
  obtain ⟨l', rest, q', -, hq', -⟩ := split_sent h (List.mem_of_getLast? hqlast)
  obtain ⟨msg, hmsg⟩ := C.fromSlice_trailing l.1 l.2 l'.1 (l'.2.bytes ++ q')
  have hpayload : p ++ c = C.toVec l.1 ++ l.2.bytes ++ (C.toVec l'.1 ++ (l'.2.bytes ++ q')) := by
    rw [hpc, hq', line, line, List.append_assoc (C.toVec l'.1)]
  refine ⟨⟨500, "Unable to parse stream: " ++ msg⟩, ?_⟩
  rw [List.map_cons, resStream, if_neg (not_not.2 hlast), hpayload, hmsg]

/-- a payload that holds more than a line is never parsed -/
theorem resStream_stuck (l : ν × LineEnd) (lines : List (ν × LineEnd)) (c : Bytes) (chunks : List Bytes) {p q : Bytes}
    (hq : q ≠ []) (hpc : p ++ c = line C l ++ q) (h : q ++ chunks.flatten = sent C lines) :
    resStream C p ((c :: chunks).map .ok) = [] ∨ ∃ e, resStream C p ((c :: chunks).map .ok) = [.error e] := by
  induction chunks generalizing c p q with
  | nil =>
    by_cases hlast : c.getLast? = some lineFeed
    · exact .inr (stuck_error hq hpc h hlast)
    · refine .inl ?_
      rw [List.map_cons, resStream, if_pos hlast]
      rfl
  | cons c' chunks ih =>
    by_cases hlast : c.getLast? = some lineFeed
    · exact .inr (stuck_error hq hpc h hlast)
    · rw [List.map_cons, resStream, if_pos hlast, hpc]
      refine ih c' (q := q ++ c') (by simp [hq]) (List.append_assoc ..) ?_
      rw [List.append_assoc]
      exact h

/-- the decoder between two line feeds: it returns the values that are left exactly if every line feed ends its chunk -/
theorem resStream_iff (lines : List (ν × LineEnd)) (chunks : List Bytes) {p : Bytes} (hp : lineFeed ∉ p)
    (h : p ++ chunks.flatten = sent C lines) :
    resStream C p (chunks.map .ok) = lines.map (fun l => .ok l.1) ↔ ∀ c ∈ chunks, lineFeed ∉ c.dropLast := by
  induction chunks generalizing p lines with
  | nil =>
    have hlines : lines = [] := by
      cases lines with
      | nil => rfl
      | cons l rest =>
        refine absurd ?_ hp
        have hmem := List.mem_append_left (sent C rest) (lineFeed_mem_line (C := C) l)
        simpa [← sent_cons, ← h] using hmem
    subst hlines
    exact iff_of_true rfl fun c hc => by cases hc
  | cons c chunks ih =>
    have hrest : (p ++ c) ++ chunks.flatten = sent C lines := by simpa using h
    rw [List.forall_mem_cons]
    by_cases hin : lineFeed ∈ c
    swap
    · -- no line ends in this chunk
      have hlast : c.getLast? ≠ some lineFeed := fun hl => hin (List.mem_of_getLast? hl)
      have hdrop : lineFeed ∉ c.dropLast := fun hl => hin (List.dropLast_subset c hl)
      rw [List.map_cons, resStream, if_pos hlast, ih lines (by simp [hp, hin]) hrest]
      exact (and_iff_right hdrop).symm
    obtain ⟨l, rest, q, rfl, hpc, hq⟩ := split_sent hrest (List.mem_append_right p hin)
    obtain ⟨c', b, rfl⟩ := (List.eq_nil_or_concat c).resolve_left (List.ne_nil_of_mem hin)
    rw [List.concat_eq_append] at hin hpc ⊢
    obtain ⟨body, hbody, hno⟩ := line_eq (C := C) l
    rw [List.dropLast_concat]
    rcases List.eq_nil_or_concat q with rfl | ⟨q', b', rfl⟩
    · -- the chunk ends the first line
      rw [List.append_nil] at hpc
      have hsplit : (p ++ c') ++ [b] = body ++ [lineFeed] := by rw [List.append_assoc, hpc, hbody]
      obtain ⟨hbefore, hb⟩ := List.append_inj' hsplit rfl
      obtain rfl : b = lineFeed := List.singleton_inj.1 hb
      have hc' : lineFeed ∉ c' := fun hm => hno (hbefore ▸ List.mem_append_right p hm)
      rw [List.map_cons, resStream, if_neg (by simp), hpc, line, C.fromSlice_line, List.map_cons]
      simp only [List.cons.injEq, true_and]
      rw [ih rest (p := []) List.not_mem_nil hq]
      exact (and_iff_right hc').symm
    · -- the chunk holds the end of the first line before its last byte
      rw [List.concat_eq_append] at hpc hq
      have hc' : lineFeed ∈ c' := by
        have hsplit : (p ++ c') ++ [b] = (body ++ [lineFeed] ++ q') ++ [b'] := by
          rw [hbody] at hpc
          simpa using hpc
        obtain ⟨hbefore, -⟩ := List.append_inj' hsplit rfl
        have hmem : lineFeed ∈ p ++ c' := by simp [hbefore]
        exact (List.mem_append.1 hmem).resolve_left hp
      refine iff_of_false (fun heq => ?_) fun h => h.1 hc'
      rcases resStream_stuck l rest _ chunks (by simp) hpc hq with hnil | ⟨e, herror⟩
      · rw [hnil] at heq
        cases heq
      · rw [herror] at heq
        cases heq

/-- **The values arrive as they were sent exactly if no chunk holds a line feed before its last byte.** -/
theorem frames_iff (C : JsonCodec ν) (lines : List (ν × LineEnd)) (chunks : List Bytes)
    (h : chunks.flatten = sent C lines) :
    resStream C [] (chunks.map .ok) = lines.map (fun l => .ok l.1) ↔ ∀ c ∈ chunks, lineFeed ∉ c.dropLast :=
  resStream_iff lines chunks List.not_mem_nil h

/-! ## An instance -/

/-- the blanks of JSON -/
def isBlank (b : UInt8) : Bool := b = 32 || b = 9 || b = 10 || b = 13

/-- `true` and `false` -/
def boolToVec : Bool → Bytes
  | true => [116, 114, 117, 101]
  | false => [102, 97, 108, 115, 101]

def boolFromSlice (bytes : Bytes) : Except String Bool :=
  match bytes.dropWhile isBlank with
  | 116 :: 114 :: 117 :: 101 :: rest => if rest.all isBlank then .ok true else .error "trailing characters"
  | 102 :: 97 :: 108 :: 115 :: 101 :: rest => if rest.all isBlank then .ok false else .error "trailing characters"
  | _ => .error "expected value"

/-- booleans as serde_json writes and reads them -/
def boolCodec : JsonCodec Bool where
  toVec := boolToVec
  fromSlice := boolFromSlice
  lineFeed_notMem v := by cases v <;> decide
  fromSlice_line v e := by cases v <;> cases e <;> rfl
  fromSlice_trailing v e v' rest := ⟨"trailing characters", by cases v <;> cases e <;> cases v' <;> rfl⟩

/-- two values, split inside a value and inside a line end, with an empty chunk in between -/
theorem frames_two :
    resStream boolCodec [] ([[116, 114], [], [117, 101, 10], [102, 97, 108, 115, 101, 13], [10]].map .ok) =
      [(true, .lf), (false, .crlf)].map (fun l : Bool × LineEnd => .ok l.1) :=
  (frames_iff boolCodec [(true, .lf), (false, .crlf)] _ rfl).2 (by decide)

/-- two values that arrive together are an error -/
theorem two_lines_in_a_chunk :
    ¬ ∀ (lines : List (Bool × LineEnd)) (chunks : List Bytes), chunks.flatten = sent boolCodec lines →
      resStream boolCodec [] (chunks.map .ok) = lines.map (fun l => .ok l.1) := by
  intro h
  have hone := h [(true, .lf), (false, .lf)] [[116, 114, 117, 101, 10, 102, 97, 108, 115, 101, 10]] rfl
  have herror : resStream boolCodec [] ([[116, 114, 117, 101, 10, 102, 97, 108, 115, 101, 10]].map .ok) =
      [.error ⟨500, "Unable to parse stream: trailing characters"⟩] := rfl
  rw [herror] at hone
  cases hone

end Nanocl.Client

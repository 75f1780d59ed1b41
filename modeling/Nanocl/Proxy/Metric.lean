/-
The reader of the access log (`bin/ncproxy/src/subsystem/metric.rs`). nginx appends one JSON line for each request; on a
change of the file `create` reads the last line, parses it and sends it to the daemon.

`read` walks backwards from the byte before the last one until it meets a newline or offset zero. The loop stops before
it has looked at offset zero, so the only line of a file loses its first byte; and each byte becomes a character of its
own, so a character of more than one byte comes out as several.

- `readLoop_segment`: the loop puts a segment without newlines before what it has.
- `read_many`, `read_single`: the text that is parsed, for a last line after others and for an only line.
- `read_last_iff`: for every file `read` parses the last line exactly if there is a line before it and it is ASCII.
-/
import Nanocl.Lib.Bytes
import Mathlib.Tactic

namespace Nanocl.Proxy.Metric

open Nanocl.Lib

/-- how `read` fails -/
inductive ReadError where
  | notFound
  /-- the seek before the start of a file shorter than two bytes -/
  | seek
  /-- the parser, on a text -/
  | parse (text : String) (error : String)
deriving DecidableEq, Repr

/-- the loop `while pos > 0`: the byte at `pos` is put before the line, a newline ends it -/
def readLoop (file : List UInt8) : ℕ → List Char → List Char
  | 0, lastLine => lastLine
  | pos + 1, lastLine =>
    match file[pos + 1]? with
    | none => lastLine
    | some b => if b = 10 then lastLine else readLoop file pos (Char.ofNat b.toNat :: lastLine)

/-- `read`; `parse` is `serde_json::from_str` -/
def read {α : Type} (parse : String → Except String α) (file : Option (List UInt8)) : Except ReadError α :=
  match file with
  | none => .error .notFound
  | some bytes =>
    if bytes.length < 2 then .error .seek
    else
      let lastLine := String.ofList (readLoop bytes (bytes.length - 2) [])
      (parse lastLine).mapError (.parse lastLine)

/-! ## Log files -/

/-- a line of the log: not empty, its first character is ASCII, as that of every JSON text is, and it has no newline -/
structure Line where
  first : Char
  rest : List Char
  ascii_first : first.toNat < 128
  one_line : '\n' ∉ first :: rest

def Line.chars (l : Line) : List Char := l.first :: l.rest

def Line.text (l : Line) : String := String.ofList l.chars

/-- the bytes of a file with these lines, each ended by a newline -/
def logFile (lines : List Line) : List UInt8 := lines.flatMap fun l => utf8 l.chars ++ [10]

theorem Line.newline_notMem (l : Line) : (10 : UInt8) ∉ utf8 l.chars := fun h => l.one_line (mem_utf8_newline.1 h)

/-- the bytes of a line begin with that of its first character -/
theorem Line.utf8_chars (l : Line) : utf8 l.chars = UInt8.ofNat l.first.toNat :: utf8 l.rest := by
  rw [Line.chars, utf8_cons, utf8EncodeChar_ascii l.ascii_first, List.singleton_append]

/-! ## The loop -/

/-- a segment without newlines is put before the line, and the loop goes on before it -/
theorem readLoop_segment {file x seg y : List UInt8} {n : ℕ} (hfile : file = x ++ seg ++ y) (hx : x.length = n + 1)
    (hseg : (10 : UInt8) ∉ seg) (lastLine : List Char) :
    readLoop file (n + seg.length) lastLine = readLoop file n (latin1 seg ++ lastLine) := by
  induction seg using List.reverseRecOn generalizing y lastLine with
  | nil => rfl
  | append_singleton seg b ih =>
    rw [List.mem_append, not_or, List.mem_singleton] at hseg
    have hbyte : file[n + seg.length + 1]? = some b := by
      have hi : n + seg.length + 1 = (x ++ seg).length := by
        rw [List.length_append, hx]
        omega
      rw [hfile, hi, ← List.append_assoc, List.append_assoc (x ++ seg), List.getElem?_append_right (Nat.le_refl _),
        Nat.sub_self]
      rfl
    have hstep : readLoop file (n + seg.length + 1) lastLine =
        readLoop file (n + seg.length) (Char.ofNat b.toNat :: lastLine) := by
      simp only [readLoop, hbyte, Ne.symm hseg.2, if_false]
    rw [List.length_append, List.length_singleton, ← Nat.add_assoc, hstep,
      ih (y := [b] ++ y) (by rw [hfile]; simp only [List.append_assoc]) hseg.1]
    simp [latin1]

/-- at a newline, and at offset zero, it stops -/
theorem readLoop_newline {file : List UInt8} {n : ℕ} (h : file[n]? = some 10) (lastLine : List Char) :
    readLoop file n lastLine = lastLine := by
  cases n with
  | zero => rfl
  | succ n => simp only [readLoop, h, if_true]

/-! ## What is parsed -/

/-- the text of a file whose last part has no newline and whose loop stops before it -/
theorem read_segment {α : Type} (parse : String → Except String α) {x seg : List UInt8} {n : ℕ} (hx : x.length = n + 1)
    (hseg : (10 : UInt8) ∉ seg)
    (hstop : ∀ lastLine, readLoop (x ++ seg ++ [10]) n lastLine = lastLine) :
    read parse (some (x ++ seg ++ [10])) =
      (parse (String.ofList (latin1 seg))).mapError (.parse (String.ofList (latin1 seg))) := by
  have hlen : (x ++ seg ++ [10]).length = n + seg.length + 2 := by
    rw [List.length_append, List.length_append, hx, List.length_singleton]
    omega
  have hloop : readLoop (x ++ seg ++ [10]) (n + seg.length) [] = latin1 seg := by
    rw [readLoop_segment rfl hx hseg, hstop, List.append_nil]
  simp only [read, hlen, Nat.add_sub_cancel, hloop]
  rw [if_neg (by omega)]

theorem logFile_concat (init : List Line) (last : Line) :
    logFile (init ++ [last]) = logFile init ++ utf8 last.chars ++ [10] := by
  simp [logFile]

/-- after other lines, all bytes of the last line -/
theorem read_many {α : Type} (parse : String → Except String α) {init : List Line} (hinit : init ≠ []) (last : Line) :
    read parse (some (logFile (init ++ [last]))) =
      (parse (String.ofList (latin1 (utf8 last.chars)))).mapError
        (.parse (String.ofList (latin1 (utf8 last.chars)))) := by
  obtain ⟨before, l, rfl⟩ := (List.eq_nil_or_concat init).resolve_left hinit
  rw [List.concat_eq_append, logFile_concat, logFile_concat]
  -- the loop stops at the newline of the line before
  refine read_segment parse (n := (logFile before ++ utf8 l.chars).length) (by rw [List.length_append]; rfl)
    last.newline_notMem fun lastLine => readLoop_newline ?_ lastLine
  rw [List.append_assoc, List.append_assoc, List.getElem?_append_right (Nat.le_refl _), Nat.sub_self]
  rfl

/-- alone, all bytes but the first -/
theorem read_single {α : Type} (parse : String → Except String α) (last : Line) :
    read parse (some (logFile [last])) =
      (parse (String.ofList (latin1 (utf8 last.rest)))).mapError
        (.parse (String.ofList (latin1 (utf8 last.rest)))) := by
  have hfile : logFile [last] = [UInt8.ofNat last.first.toNat] ++ utf8 last.rest ++ [10] := by
    simp [logFile, last.utf8_chars]
  rw [hfile]
  -- the loop ends at offset zero, with the first byte unread
  refine read_segment parse (n := 0) rfl (fun h => last.newline_notMem ?_) fun lastLine => rfl
  rw [last.utf8_chars]
  exact List.mem_cons_of_mem _ h

/-- **The last line of the log.** For every file of one or more lines, what `read` returns is what the parser makes of
the last line, for every parser, exactly if there is a line before it and all of its characters are ASCII. -/
theorem read_last_iff (init : List Line) (last : Line) :
    (∀ (α : Type) (parse : String → Except String α),
      read parse (some (logFile (init ++ [last]))) = (parse last.text).mapError (.parse last.text)) ↔
      init ≠ [] ∧ ∀ c ∈ last.chars, c.toNat < 128 := by
  have hok : ∀ s t : List Char, ((Except.ok (String.ofList s) : Except String String).mapError
      (ReadError.parse (String.ofList s))) = (Except.ok (String.ofList t)).mapError (.parse (String.ofList t)) →
      s = t := by
    intro s t h
    exact String.ofList_injective (Except.ok.inj h)
  constructor
  · intro h
    -- the parser that returns its text tells texts apart
    have htext := h String Except.ok
    cases init with
    | nil =>
      rw [List.nil_append, read_single] at htext
      exact absurd (hok _ _ htext) (latin1_utf8_ne_cons last.ascii_first last.rest)
    | cons l init =>
      rw [read_many _ (List.cons_ne_nil l init)] at htext
      exact ⟨List.cons_ne_nil l init, latin1_utf8_iff.1 (hok _ _ htext)⟩
  · rintro ⟨hinit, hascii⟩ α parse
    rw [read_many parse hinit, latin1_utf8_ascii hascii]
    rfl

/-! A log with one request, and a second one whose path is not ASCII. -/

def firstLine : Line where
  first := '\x7b'
  rest := "\"uri\":\"/\"\x7d".toList
  ascii_first := by decide
  one_line := by decide

def secondLine : Line where
  first := '\x7b'
  rest := "\"uri\":\"/é\"\x7d".toList
  ascii_first := by decide
  one_line := by decide

/-- the first line is parsed without its brace, the second with two characters for one -/
theorem line_misread :
    (∀ (α : Type) (parse : String → Except String α), read parse (some (logFile [firstLine])) =
      (parse "\"uri\":\"/\"\x7d").mapError (.parse "\"uri\":\"/\"\x7d")) ∧
    (∀ (α : Type) (parse : String → Except String α), read parse (some (logFile [firstLine, secondLine])) =
      (parse "\x7b\"uri\":\"/Ã©\"\x7d").mapError (.parse "\x7b\"uri\":\"/Ã©\"\x7d")) ∧
    (¬ ∀ (α : Type) (parse : String → Except String α), read parse (some (logFile [firstLine])) =
      (parse firstLine.text).mapError (.parse firstLine.text)) ∧
    ¬ ∀ (α : Type) (parse : String → Except String α), read parse (some (logFile [firstLine, secondLine])) =
      (parse secondLine.text).mapError (.parse secondLine.text) := by
  have hfirst : ∀ (α : Type) (parse : String → Except String α), read parse (some (logFile [firstLine])) =
      (parse "\"uri\":\"/\"\x7d").mapError (.parse "\"uri\":\"/\"\x7d") := fun α parse => read_single parse firstLine
  have hsecond : ∀ (α : Type) (parse : String → Except String α), read parse (some (logFile [firstLine, secondLine])) =
      (parse "\x7b\"uri\":\"/Ã©\"\x7d").mapError (.parse "\x7b\"uri\":\"/Ã©\"\x7d") := fun α parse =>
    read_many parse (List.cons_ne_nil firstLine []) secondLine
  refine ⟨hfirst, hsecond, fun h => ?_, fun h => ?_⟩
  · have htext := (hfirst String Except.ok).symm.trans (h String Except.ok)
    exact absurd (Except.ok.inj htext) (by decide)
  · have htext := (hsecond String Except.ok).symm.trans (h String Except.ok)
    exact absurd (Except.ok.inj htext) (by decide)

end Nanocl.Proxy.Metric

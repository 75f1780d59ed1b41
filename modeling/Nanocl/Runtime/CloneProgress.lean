/-
The progress of a clone (`utils/vm_image.rs::clone`). `qemu-img convert -p` writes items such as `    (12.50/100%)`, each
ended by a carriage return; a task reads them into a buffer of 1024 bytes and sends a number for each read.

The task parses the whole buffer, up to the first slash, whatever the number of bytes that the read has put into it. A
read that begins inside an item, or that ends before its slash, is parsed together with what is left from the reads
before it: it panics on what is no number, and sends numbers that were never written.

- `Reader.step_percent`: a read that begins between items, or right behind an opening parenthesis, and reaches the next
  slash sends the percentage before it.
- `written_append`: the percentages of two pieces of a text are among those of the text, in order.
- `clone_progress`: along reads that are all like that, whatever the buffer held, the task never panics and what it has
  sent is a subsequence of what was written.
- `cut_items`: an item that is cut in two.
-/
import Nanocl.Store.Filter

namespace Nanocl.Runtime.Clone

/-! ## Numbers -/

/-- the digits of a number, most significant first -/
def ofDigits (digits : List Char) : ℕ := digits.foldl (fun n c => 10 * n + (c.toNat - '0'.toNat)) 0

/-- `str::parse::<f32>` on texts without letters, so without an exponent; the value before it is rounded -/
def parseF32 (text : List Char) : Option ℚ :=
  let (sign, text) : ℚ × List Char := match text with
    | '-' :: text => (-1, text)
    | '+' :: text => (1, text)
    | text => (1, text)
  let whole := text.takeWhile Char.isDigit
  match text.dropWhile Char.isDigit with
  | [] => if whole = [] then none else some (sign * ofDigits whole)
  | '.' :: frac =>
    if frac.all Char.isDigit ∧ (whole ≠ [] ∨ frac ≠ []) then
      some (sign * (ofDigits whole + ofDigits frac / 10 ^ frac.length))
    else none
  | _ => none

/-- `str::trim` -/
def trim (text : List Char) : List Char :=
  ((text.dropWhile isWhitespace).reverse.dropWhile isWhitespace).reverse

/-! ## The reader task -/

/-- the buffer of the task; the progress text is ASCII, so a byte is a character -/
abbrev Buffer := List Char

/-- `[0; 1024]` -/
def Buffer.zeroed : Buffer := List.replicate 1024 '\x00'

/-- one turn of the loop on a read of some bytes: the buffer and the progress that is sent; `none` is a panic -/
def Reader.step (buf : Buffer) (bytes : List Char) : Option (Buffer × ℚ) := do
  let buf := bytes ++ buf.drop bytes.length
  let progress ← parseF32 ((trim (buf.takeWhile (· ≠ '/'))).dropWhile (· = '('))
  return (buf, progress)

/-- the loop over the reads, from a buffer: what it sends -/
def Reader.run (buf : Buffer) : List (List Char) → Option (List ℚ)
  | [] => some []
  | bytes :: reads => do
    let (buf, progress) ← Reader.step buf bytes
    let sent ← Reader.run buf reads
    return progress :: sent

/-! ## Progress texts -/

/-- a percentage as it is written: digits and a point, and a number -/
structure Percent where
  text : List Char
  value : ℚ
  digits : ∀ c ∈ text, c.isDigit = true ∨ c = '.'
  parses : parseF32 text = some value

/-- an item: spaces in front, and the percentage out of 100 -/
structure Item where
  pad : ℕ
  percent : Percent

def Item.text (i : Item) : List Char :=
  List.replicate i.pad ' ' ++ '(' :: i.percent.text ++ "/100%)".toList

/-- the items separated by carriage returns, and the end of the output -/
def progressText (items : List Item) (ending : List Char) : List Char :=
  ['\r'].intercalate (items.map Item.text) ++ ending

/-- the read reaches the slash of the item that it begins with, between items or right behind the opening parenthesis that
the read before has ended with -/
inductive Aligned : Bool → List Char → Prop
  | between (opened : Bool) (white : List Char) (p : Percent) (rest : List Char) :
      (∀ c ∈ white, isWhitespace c = true) → Aligned opened (white ++ '(' :: p.text ++ '/' :: rest)
  | behind (p : Percent) (rest : List Char) : Aligned true (p.text ++ '/' :: rest)

/-- the text ends with an opening parenthesis -/
def opens (text : List Char) : Bool := text.getLast? = some '('

/-- each read is aligned, behind the one before -/
def AllAligned : Bool → List (List Char) → Prop
  | _, [] => True
  | opened, bytes :: reads => Aligned opened bytes ∧ AllAligned (opens bytes) reads

/-! ## One read -/

theorem Percent.ne_nil (p : Percent) : p.text ≠ [] := by
  intro h
  have := p.parses
  rw [h] at this
  cases this

theorem Percent.not_mem (p : Percent) {c : Char} (hc : c.isDigit = false ∧ c ≠ '.') : c ∉ p.text := by
  intro h
  rcases p.digits c h with hd | hd
  · rw [hc.1] at hd
    cases hd
  · exact hc.2 hd

theorem Percent.not_white (p : Percent) {c : Char} (h : c ∈ p.text) : isWhitespace c = false := by
  rcases p.digits c h with hd | rfl
  · simp only [Char.isDigit, Bool.and_eq_true, decide_eq_true_eq] at hd
    have hlo : 48 ≤ c.toNat := hd.1
    have hhi : c.toNat ≤ 57 := hd.2
    simp [isWhitespace]
    omega
  · decide

/-- white space around a text that has none is trimmed -/
theorem trim_eq {white text : List Char} (hw : ∀ c ∈ white, isWhitespace c = true)
    (ht : ∀ c ∈ text, isWhitespace c = false) : trim (white ++ text) = text := by
  have hfront : (white ++ text).dropWhile isWhitespace = text := by
    rw [List.dropWhile_append_of_pos hw]
    cases text with
    | nil => rfl
    | cons c text => rw [List.dropWhile_cons_of_neg (by simp [ht c (List.mem_cons_self ..)])]
  unfold trim
  rw [hfront]
  cases hr : text.reverse with
  | nil => rw [List.reverse_eq_nil_iff.1 hr]; rfl
  | cons c rest =>
    have hc : c ∈ text := by
      rw [← List.mem_reverse, hr]
      exact List.mem_cons_self ..
    rw [List.dropWhile_cons_of_neg (by simp [ht c hc]), ← hr, List.reverse_reverse]

/-- **One read.** Whatever the buffer held, the percentage at the beginning of the read is sent, with the parenthesis before
it or without. -/
theorem Reader.step_percent (buf : Buffer) {white paren rest : List Char} (hw : ∀ c ∈ white, isWhitespace c = true)
    (hparen : ∀ c ∈ paren, c = '(') (p : Percent) :
    ∃ buf', Reader.step buf (white ++ (paren ++ p.text) ++ '/' :: rest) = some (buf', p.value) := by
  have hslash : ∀ c ∈ white ++ (paren ++ p.text), decide (c ≠ '/') = true := by
    intro c hc
    rw [decide_eq_true_eq]
    rintro rfl
    rcases List.mem_append.1 hc with h | h
    · exact absurd (hw _ h) (by decide)
    · rcases List.mem_append.1 h with h | h
      · exact absurd (hparen _ h) (by decide)
      · exact p.not_mem ⟨by decide, by decide⟩ h
  have htext : ∀ c ∈ paren ++ p.text, isWhitespace c = false := by
    intro c hc
    rcases List.mem_append.1 hc with hc | hc
    · rw [hparen c hc]
      decide
    · exact p.not_white hc
  have hnumber : (paren ++ p.text).dropWhile (· = '(') = p.text := by
    obtain ⟨c, text, hc⟩ := List.exists_cons_of_ne_nil p.ne_nil
    have hne : c ≠ '(' := by
      rintro rfl
      exact p.not_mem (c := '(') ⟨by decide, by decide⟩ (by rw [hc]; exact List.mem_cons_self ..)
    rw [List.dropWhile_append_of_pos (by simpa using hparen), hc, List.dropWhile_cons_of_neg (by simpa using hne)]
  have hfirst : ∀ tail, (white ++ (paren ++ p.text) ++ '/' :: tail).takeWhile (· ≠ '/') = white ++ (paren ++ p.text) := by
    intro tail
    rw [List.takeWhile_append_of_pos hslash]
    simp
  unfold Reader.step
  rw [List.append_assoc _ ('/' :: rest), List.cons_append]
  simp only [hfirst, trim_eq hw htext, hnumber, p.parses]
  exact ⟨_, rfl⟩

/-! ## What is written -/

/-- the percentages of a text: the numbers between an opening parenthesis and the next slash -/
def written : List Char → List ℚ
  | [] => []
  | c :: text =>
    if c = '(' ∧ '/' ∈ text then (parseF32 (text.takeWhile (· ≠ '/'))).toList ++ written text else written text

theorem written_skip {a : List Char} (ha : '(' ∉ a) (b : List Char) : written (a ++ b) = written b := by
  induction a with
  | nil => rfl
  | cons c a ih =>
    rw [List.mem_cons, not_or] at ha
    rw [List.cons_append, written, if_neg fun h => ha.1 h.1.symm, ih ha.2]

theorem written_percent (p : Percent) (rest : List Char) :
    written ('(' :: p.text ++ '/' :: rest) = p.value :: written rest := by
  have htake : (p.text ++ '/' :: rest).takeWhile (· ≠ '/') = p.text := by
    rw [List.takeWhile_append_of_pos]
    · simp
    · intro c hc
      rw [decide_eq_true_eq]
      rintro rfl
      exact p.not_mem ⟨by decide, by decide⟩ hc
  have hskip : written (p.text ++ '/' :: rest) = written rest := by
    rw [written_skip (p.not_mem ⟨by decide, by decide⟩)]
    exact written_skip (a := ['/']) (by decide) rest
  rw [List.cons_append, written, if_pos ⟨rfl, by simp⟩, htake, p.parses, hskip]
  rfl

theorem takeWhile_slash {a : List Char} (h : '/' ∈ a) (b : List Char) :
    (a ++ b).takeWhile (· ≠ '/') = a.takeWhile (· ≠ '/') := by
  induction a with
  | nil => cases h
  | cons c a ih =>
    by_cases hc : c = '/'
    · simp [hc]
    · rcases List.mem_cons.1 h with h | h
      · exact absurd h.symm hc
      · rw [List.cons_append, List.takeWhile_cons_of_pos (by simpa using hc),
          List.takeWhile_cons_of_pos (by simpa using hc), ih h]

theorem written_cons (c : Char) (text : List Char) : written (c :: text) =
    if c = '(' ∧ '/' ∈ text then (parseF32 (text.takeWhile (· ≠ '/'))).toList ++ written text else written text := rfl

/-- the percentages of two pieces are percentages of the whole text, in order -/
theorem written_append (a b : List Char) : (written a ++ written b).Sublist (written (a ++ b)) := by
  induction a with
  | nil => exact List.Sublist.refl _
  | cons c a ih =>
    rw [List.cons_append, written_cons c a, written_cons c (a ++ b)]
    by_cases h : c = '(' ∧ '/' ∈ a
    · rw [if_pos h, if_pos ⟨h.1, List.mem_append_left _ h.2⟩, takeWhile_slash h.2, List.append_assoc]
      exact ih.append_left _
    · rw [if_neg h]
      split_ifs
      · exact ih.trans (List.sublist_append_right _ _)
      · exact ih

theorem written_item (i : Item) (rest : List Char) : written (i.text ++ rest) = i.percent.value :: written rest := by
  have hpad : '(' ∉ List.replicate i.pad ' ' := fun h => absurd (List.eq_of_mem_replicate h) (by decide)
  have htext : i.text ++ rest =
      List.replicate i.pad ' ' ++ ('(' :: i.percent.text ++ '/' :: ("100%)".toList ++ rest)) := by
    simp [Item.text]
  rw [htext, written_skip hpad, written_percent, written_skip (by decide)]

/-- a progress text has the percentages of its items -/
theorem written_progressText (items : List Item) {ending : List Char} (he : ∀ c ∈ ending, isWhitespace c = true) :
    written (progressText items ending) = items.map fun i => i.percent.value := by
  have hend : written ending = [] := by
    have hno : '(' ∉ ending := fun h => absurd (he _ h) (by decide)
    have := written_skip hno []
    rwa [List.append_nil] at this
  unfold progressText
  induction items with
  | nil => exact hend
  | cons i items ih =>
    cases items with
    | nil =>
      have hone : ['\r'].intercalate ([i].map Item.text) = i.text := by simp [List.intercalate]
      rw [hone, written_item, hend]
      rfl
    | cons j items =>
      have htwo : ['\r'].intercalate ((i :: j :: items).map Item.text) ++ ending =
          i.text ++ (['\r'] ++ (['\r'].intercalate ((j :: items).map Item.text) ++ ending)) := by
        simp [List.intercalate]
      rw [htwo, written_item, written_skip (by decide), ih]
      rfl

/-! ## A run -/

/-- the opening parenthesis that the text before has ended with -/
def opening (opened : Bool) : List Char := if opened then ['('] else []

/-- what is written behind a part of the text is written in it -/
theorem written_suffix (a b : List Char) : (written b).Sublist (written (a ++ b)) :=
  (List.sublist_append_right _ _).trans (written_append a b)

/-- an aligned read sends the percentage of an item, which is written there -/
theorem Aligned.sends {opened : Bool} {bytes : List Char} (h : Aligned opened bytes) :
    ∃ front, ∃ p : Percent, ∃ rest, opening opened ++ bytes = front ++ ('(' :: p.text ++ '/' :: rest) ∧
      opening (opens bytes) <:+ rest ∧ ∀ buf, ∃ buf', Reader.step buf bytes = some (buf', p.value) := by
  have hopens : ∀ front rest, opening (opens (front ++ '/' :: rest)) <:+ rest := by
    intro front rest
    unfold opening opens
    split_ifs with hlast
    · rw [decide_eq_true_eq, List.getLast?_append_cons] at hlast
      cases rest with
      | nil => exact absurd hlast (by decide)
      | cons c rest =>
        rw [List.getLast?_cons_cons] at hlast
        obtain ⟨init, hinit⟩ := List.getLast?_eq_some_iff.1 hlast
        exact ⟨init, hinit.symm⟩
    · exact List.nil_suffix
  cases h with
  | between opened white p rest hw =>
    refine ⟨opening opened ++ white, p, rest, by simp, hopens _ rest, fun buf => ?_⟩
    have hstep : ∃ buf', Reader.step buf (white ++ (['('] ++ p.text) ++ '/' :: rest) = some (buf', p.value) :=
      Reader.step_percent buf hw (by simp) p
    simpa using hstep
  | behind p rest =>
    refine ⟨[], p, rest, by simp [opening], hopens _ rest, fun buf => ?_⟩
    have hstep : ∃ buf', Reader.step buf ([] ++ ([] ++ p.text) ++ '/' :: rest) = some (buf', p.value) :=
      Reader.step_percent buf (by simp) (by simp) p
    simpa using hstep

/-- **Run.** Aligned reads send percentages that are written in them, one each. -/
theorem Reader.run_aligned {opened : Bool} {reads : List (List Char)} (h : AllAligned opened reads) (buf : Buffer) :
    ∃ sent, Reader.run buf reads = some sent ∧ sent.length = reads.length ∧
      sent.Sublist (written (opening opened ++ reads.flatten)) := by
  induction reads generalizing opened buf with
  | nil => exact ⟨[], rfl, rfl, List.nil_sublist _⟩
  | cons bytes reads ih =>
    obtain ⟨front, p, rest, hbytes, ⟨skipped, hrest⟩, hsends⟩ := h.1.sends
    obtain ⟨buf', hstep⟩ := hsends buf
    obtain ⟨sent, hrun, hlen, hsub⟩ := ih h.2 buf'
    refine ⟨p.value :: sent, ?_, by rw [List.length_cons, List.length_cons, hlen], ?_⟩
    · simp only [Reader.run, hstep, Option.bind_eq_bind, Option.bind_some, hrun, Option.pure_def]
    · have hlater : sent.Sublist (written (rest ++ reads.flatten)) := by
        rw [← hrest, List.append_assoc]
        exact hsub.trans (written_suffix skipped _)
      have hitem : (p.value :: sent).Sublist (written ('(' :: p.text ++ '/' :: (rest ++ reads.flatten))) := by
        rw [written_percent]
        exact hlater.cons_cons p.value
      have htext : opening opened ++ (bytes :: reads).flatten =
          front ++ ('(' :: p.text ++ '/' :: (rest ++ reads.flatten)) := by
        rw [List.flatten_cons, ← List.append_assoc, hbytes]
        simp
      rw [htext]
      exact hitem.trans (written_suffix front _)

/-- **The progress of a clone.** For every progress text and every way it is cut into reads: as long as each read begins
between items, or right behind the opening parenthesis that the read before has ended with, and reaches the slash of the
item, the reader task does not panic and what it has sent is a subsequence of the percentages written. -/
theorem clone_progress (items : List Item) (ending : List Char) (he : ∀ c ∈ ending, isWhitespace c = true)
    (reads later : List (List Char)) (hcut : (reads ++ later).flatten = progressText items ending)
    (h : AllAligned false reads) :
    ∃ sent, Reader.run Buffer.zeroed reads = some sent ∧ sent.Sublist (items.map fun i => i.percent.value) := by
  obtain ⟨sent, hrun, -, hsub⟩ := Reader.run_aligned h Buffer.zeroed
  refine ⟨sent, hrun, ?_⟩
  rw [← written_progressText items he, ← hcut, List.flatten_append]
  exact hsub.trans ((List.sublist_append_left _ _).trans (written_append _ _))

/-! Two items, `(12.50/100%)` and `(13.00/100%)`. -/

def twelve : Percent where
  text := "12.50".toList
  value := 25 / 2
  digits c hc := by
    have hall : "12.50".toList.all (fun c => c.isDigit || c = '.') = true := by decide
    simpa using List.all_eq_true.1 hall c hc
  parses := by decide +kernel

def thirteen : Percent where
  text := "13.00".toList
  value := 13
  digits c hc := by
    have hall : "13.00".toList.all (fun c => c.isDigit || c = '.') = true := by decide
    simpa using List.all_eq_true.1 hall c hc
  parses := by decide +kernel

def twoItems : List Item := [⟨0, twelve⟩, ⟨0, thirteen⟩]

/-- cut between the items or behind the second parenthesis, both are sent -/
theorem two_items_sent : ∃ sent,
    Reader.run Buffer.zeroed ["(12.50/100%)\r(".toList, "13.00/100%)".toList] = some sent ∧
      sent.Sublist (twoItems.map fun i => i.percent.value) :=
  clone_progress twoItems [] (fun _ h => nomatch h) ["(12.50/100%)\r(".toList, "13.00/100%)".toList] [] (by decide)
    ⟨.between false [] twelve "100%)\r(".toList (fun _ h => nomatch h), .behind thirteen "100%)".toList, trivial⟩

/-- cut inside the second one, 0 is sent for it; cut inside the first one, the task panics -/
theorem cut_items :
    ["(12.50/100%)\r(13".toList, ".00/100%)".toList].flatten = progressText twoItems [] ∧
    Reader.run Buffer.zeroed ["(12.50/100%)\r(13".toList, ".00/100%)".toList] = some [25 / 2, 0] ∧
    ¬ [(25 / 2 : ℚ), 0].Sublist (twoItems.map fun i => i.percent.value) ∧
    ["(12".toList, ".50/100%)\r(13.00/100%)".toList].flatten = progressText twoItems [] ∧
    Reader.run Buffer.zeroed ["(12".toList, ".50/100%)\r(13.00/100%)".toList] = none := by
  decide +kernel

end Nanocl.Runtime.Clone

/-
Texts as bytes: UTF-8, and the reading that takes each byte for a character of its own (Latin-1).
- `mem_utf8_newline`: a newline byte comes from a newline character only.
- `latin1_utf8_iff`: read byte by byte, a text in UTF-8 is itself exactly if all of its characters are ASCII.
- `latin1_utf8_ne_cons`: and never itself with an ASCII character before it.
-/
import Mathlib.Tactic

namespace Nanocl.Lib

def utf8 (s : List Char) : List UInt8 := s.flatMap String.utf8EncodeChar

/-- `byte as char` for each byte -/
def latin1 (bytes : List UInt8) : List Char := bytes.map fun b => Char.ofNat b.toNat

@[simp] theorem utf8_nil : utf8 [] = [] := rfl

@[simp] theorem utf8_cons (c : Char) (s : List Char) : utf8 (c :: s) = String.utf8EncodeChar c ++ utf8 s := rfl

@[simp] theorem length_latin1 (bytes : List UInt8) : (latin1 bytes).length = bytes.length := List.length_map _

/-- an ASCII character is one byte, its code -/
theorem utf8EncodeChar_ascii {c : Char} (h : c.toNat < 128) : String.utf8EncodeChar c = [UInt8.ofNat c.toNat] := by
  unfold String.utf8EncodeChar
  exact if_pos (Nat.lt_succ_iff.1 h)

/-- every other character has more than one byte -/
theorem one_lt_length_utf8EncodeChar {c : Char} (h : 128 ≤ c.toNat) : 1 < (String.utf8EncodeChar c).length := by
  have hv : ¬ c.val.toNat ≤ 127 := by
    change ¬ c.toNat ≤ 127
    omega
  unfold String.utf8EncodeChar
  simp only [hv, if_false]
  split_ifs <;> simp

/-- and none of its bytes is ASCII -/
theorem le_of_mem_utf8EncodeChar {c : Char} (h : 128 ≤ c.toNat) {b : UInt8} (hb : b ∈ String.utf8EncodeChar c) :
    128 ≤ b.toNat := by
  have hv : ¬ c.val.toNat ≤ 127 := by
    change ¬ c.toNat ≤ 127
    omega
  have hmax : c.val.toNat < 1114112 := c.valid.elim (fun h => by have := h; omega) fun h => h.2
  unfold String.utf8EncodeChar at hb
  simp only [hv, if_false] at hb
  split_ifs at hb <;> simp only [List.mem_cons, List.not_mem_nil, or_false] at hb <;>
    rcases hb with rfl | rfl | rfl | rfl <;> simp only [UInt8.toNat_ofNat'] <;> omega

theorem mem_utf8_newline {s : List Char} : (10 : UInt8) ∈ utf8 s ↔ '\n' ∈ s := by
  unfold utf8
  rw [List.mem_flatMap]
  constructor
  · rintro ⟨c, hc, hb⟩
    have hlt : c.toNat < 128 := by
      by_contra hge
      exact absurd (le_of_mem_utf8EncodeChar (Nat.le_of_not_lt hge) hb) (by decide)
    rw [utf8EncodeChar_ascii hlt, List.mem_singleton] at hb
    have hcode : c.toNat = 10 := by
      have := congrArg UInt8.toNat hb
      simp only [UInt8.toNat_ofNat'] at this
      have h10 : (10 : UInt8).toNat = 10 := rfl
      omega
    have hnl : c = '\n' := Char.ext (UInt32.toNat_inj.1 hcode)
    exact hnl ▸ hc
  · intro h
    exact ⟨'\n', h, by decide⟩

theorem length_le_utf8 (s : List Char) : s.length ≤ (utf8 s).length := by
  induction s with
  | nil => exact Nat.le_refl 0
  | cons c s ih =>
    have : String.utf8EncodeChar c ≠ [] := String.utf8EncodeChar_ne_nil
    have := List.length_pos_of_ne_nil this
    simp only [utf8_cons, List.length_append, List.length_cons]
    omega

theorem latin1_utf8_ascii {s : List Char} (h : ∀ c ∈ s, c.toNat < 128) : latin1 (utf8 s) = s := by
  induction s with
  | nil => rfl
  | cons c s ih =>
    have hc := h c (List.mem_cons_self ..)
    have hcode : (UInt8.ofNat c.toNat).toNat = c.toNat := by
      rw [UInt8.toNat_ofNat']
      omega
    rw [utf8_cons, utf8EncodeChar_ascii hc, List.singleton_append, latin1, List.map_cons, hcode, Char.ofNat_toNat]
    exact congrArg _ (ih fun d hd => h d (List.mem_cons_of_mem _ hd))

theorem latin1_utf8_iff {s : List Char} : latin1 (utf8 s) = s ↔ ∀ c ∈ s, c.toNat < 128 := by
  constructor
  · intro h c hc
    by_contra hge
    -- one character with two bytes makes the text longer
    obtain ⟨pre, post, rfl⟩ := List.append_of_mem hc
    have hlen := congrArg List.length h
    have hone := one_lt_length_utf8EncodeChar (Nat.le_of_not_lt hge)
    have hpre := length_le_utf8 pre
    have hpost := length_le_utf8 post
    simp only [length_latin1, utf8, List.flatMap_append, List.flatMap_cons, List.length_append, List.length_cons] at *
    omega
  · exact latin1_utf8_ascii

theorem toNat_ofNat_byte (b : UInt8) : (Char.ofNat b.toNat).toNat = b.toNat := by
  have hb := b.toNat_lt
  have hvalid : b.toNat.isValidChar := Or.inl (by omega)
  unfold Char.ofNat
  rw [dif_pos hvalid]
  rfl

theorem latin1_utf8_ne_cons {a : Char} (ha : a.toNat < 128) (s : List Char) : latin1 (utf8 s) ≠ a :: s := by
  induction s generalizing a with
  | nil => exact nofun
  | cons c s ih =>
    intro h
    by_cases hc : c.toNat < 128
    · have hone : latin1 (utf8 (c :: s)) = c :: latin1 (utf8 s) := by
        rw [utf8_cons, latin1, List.map_append, ← latin1, ← latin1]
        have := latin1_utf8_ascii (s := [c]) (by simpa using hc)
        rw [utf8_cons, utf8_nil, List.append_nil] at this
        rw [this, List.singleton_append]
      rw [hone, List.cons.injEq] at h
      exact ih hc h.2
    · -- the first byte of `c` is not ASCII, and `a` is
      obtain ⟨b, bytes, hb⟩ := List.exists_cons_of_ne_nil (String.utf8EncodeChar_ne_nil (c := c))
      have hge := le_of_mem_utf8EncodeChar (Nat.le_of_not_lt hc) (b := b) (by rw [hb]; exact List.mem_cons_self ..)
      rw [utf8_cons, hb, List.cons_append, latin1, List.map_cons, List.cons.injEq] at h
      have hcode := congrArg Char.toNat h.1
      rw [toNat_ofNat_byte] at hcode
      omega

end Nanocl.Lib

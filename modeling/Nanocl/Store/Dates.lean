/-
The dates of a filter (`parse_date_string` in `bin/nanocld/src/models/mod.rs`).

The function lists five formats, with an example of each, and tries them with `DateTime::parse_from_str`; then come RFC
3339 and, as a last resort, a date alone. `parse_from_str` returns an instant, so it needs an offset: three of the five
formats have none and never match. The fallback rescues the date, not the two formats with a time.

- `Renderings`: what chrono documents about the renderings of an instant.
- `date_string_iff`: a rendering is read back exactly if its format has an offset or is the date.
- `time_without_offset`: `2023-06-01 12:34:56.789`, the example in the source, is refused.
-/
import Nanocl.Store.Filter

namespace Nanocl

open Nanocl.Lib

/-- the documented formats: the five of the list, in its order, and RFC 3339 -/
inductive DateFormat where
  | fractionOffset | secondsOffset | fraction | seconds | date | rfc3339
deriving DecidableEq, Repr

/-- the format as the list has it; `to_rfc3339` for the last -/
def DateFormat.strftime : DateFormat → String
  | .fractionOffset => "%Y-%m-%d %H:%M:%S%.f %:z"
  | .secondsOffset => "%Y-%m-%d %H:%M:%S %:z"
  | .fraction => "%Y-%m-%d %H:%M:%S%.f"
  | .seconds => "%Y-%m-%d %H:%M:%S"
  | .date => "%Y-%m-%d"
  | .rfc3339 => "%Y-%m-%dT%H:%M:%S%.f%:z"

theorem dateFormats_eq :
    dateFormats = [DateFormat.fractionOffset, .secondsOffset, .fraction, .seconds, .date].map DateFormat.strftime := rfl

/-- the format has a place for the offset -/
def DateFormat.hasOffset : DateFormat → Bool
  | .fractionOffset | .secondsOffset | .rfc3339 => true
  | .fraction | .seconds | .date => false

/-- the format has a place for every part of the instant; `second` is the number of ticks in a second, and RFC 3339 has
four digits for the year -/
def DateFormat.Exact (second : ℕ) (t : ℤ) : DateFormat → Prop
  | .fractionOffset | .fraction => True
  | .secondsOffset | .seconds => (second : ℤ) ∣ t
  | .date => (86400 * second : ℤ) ∣ t
  | .rfc3339 => -62167219200 * second ≤ t ∧ t < 253402300800 * second

instance (second : ℕ) (t : ℤ) : (f : DateFormat) → Decidable (f.Exact second t)
  | .fractionOffset | .fraction => inferInstanceAs (Decidable True)
  | .secondsOffset | .seconds => inferInstanceAs (Decidable ((second : ℤ) ∣ t))
  | .date => inferInstanceAs (Decidable ((86400 * second : ℤ) ∣ t))
  | .rfc3339 => inferInstanceAs (Decidable (_ ∧ _))

section

variable (E : Externals)

/-- what chrono documents about the renderings of the instant `t` in UTC -/
structure Renderings (second : ℕ) (t : ℤ) (render : DateFormat → String) : Prop where
  /-- a format without an offset never makes an instant -/
  offset_in_format : ∀ f : DateFormat, f.hasOffset = false → ∀ s, E.parseFromStr s f.strftime = none
  /-- an offset in the format must be in the text -/
  offset_in_text : ∀ f : DateFormat, f.hasOffset = false →
    (∀ g : DateFormat, g.hasOffset = true → E.parseFromStr (render f) g.strftime = none) ∧
      E.parseFromRfc3339 (render f) = none
  /-- text after the end of the format is refused -/
  no_trailing : ∀ f : DateFormat, f ≠ .date → E.parseNaiveDate (render f) DateFormat.date.strftime = none
  /-- a text is read back in the format that it was written in -/
  round_trip : ∀ f : DateFormat, f.hasOffset = true → f ≠ .rfc3339 → f.Exact second t →
    E.parseFromStr (render f) f.strftime = some t
  round_trip_rfc3339 : DateFormat.rfc3339.Exact second t → E.parseFromRfc3339 (render .rfc3339) = some t
  round_trip_date : DateFormat.date.Exact second t → E.parseNaiveDate (render .date) DateFormat.date.strftime = some t
  /-- `%.f` reads a missing fraction as zero -/
  fraction_optional : DateFormat.secondsOffset.Exact second t →
    E.parseFromStr (render .secondsOffset) DateFormat.fractionOffset.strftime = some t
  /-- the T of RFC 3339 is no white space -/
  separator : ∀ f : DateFormat, f ≠ .rfc3339 → E.parseFromStr (render .rfc3339) f.strftime = none

variable {E} {second : ℕ} {t : ℤ} {render : DateFormat → String}

/-- no format of the list reads a text that none of them matches -/
theorem findSome_dateFormats_none {s : String} (h : ∀ f : DateFormat, f ≠ .rfc3339 → E.parseFromStr s f.strftime = none) :
    dateFormats.findSome? (E.parseFromStr s) = none := by
  rw [List.findSome?_eq_none_iff, dateFormats_eq]
  intro format hmem
  obtain ⟨f, hf, rfl⟩ := List.mem_map.1 hmem
  exact h f (by rintro rfl; simp at hf)

/-- a rendering without an offset passes all five formats by -/
theorem Renderings.findSome_none (h : Renderings E second t render) {f : DateFormat} (hf : f.hasOffset = false) :
    dateFormats.findSome? (E.parseFromStr (render f)) = none := by
  refine findSome_dateFormats_none fun g _ => ?_
  cases hg : g.hasOffset with
  | true => exact (h.offset_in_text f hf).1 g hg
  | false => exact h.offset_in_format g hg _

/-- the renderings with an offset, and the date -/
theorem Renderings.parse (h : Renderings E second t render) {f : DateFormat} (hx : f.Exact second t)
    (hf : f.hasOffset = true ∨ f = .date) : parseDateString E (render f) = .ok t := by
  unfold parseDateString
  cases f with
  | fractionOffset =>
    have hfirst := h.round_trip .fractionOffset rfl nofun hx
    rw [dateFormats_eq, List.map_cons, List.findSome?_cons_of_isSome (by rw [hfirst]; rfl), hfirst]
  | secondsOffset =>
    -- the first format of the list reads it too, and alike
    have hfirst := h.fraction_optional hx
    rw [dateFormats_eq, List.map_cons, List.findSome?_cons_of_isSome (by rw [hfirst]; rfl), hfirst]
  | date =>
    rw [h.findSome_none rfl, (h.offset_in_text .date rfl).2]
    simp only [show "%Y-%m-%d" = DateFormat.date.strftime from rfl, h.round_trip_date hx]
  | rfc3339 =>
    rw [findSome_dateFormats_none h.separator, h.round_trip_rfc3339 hx]
  | fraction | seconds =>
    rcases hf with hf | hf <;> cases hf

/-- a time without an offset: the fallbacks refuse it as well -/
theorem Renderings.refused (h : Renderings E second t render) {f : DateFormat} (hf : f.hasOffset = false)
    (hd : f ≠ .date) : parseDateString E (render f) = .error ("Invalid date format: " ++ render f) := by
  unfold parseDateString
  rw [h.findSome_none hf, (h.offset_in_text f hf).2]
  simp only [show "%Y-%m-%d" = DateFormat.date.strftime from rfl, h.no_trailing f hd]

/-- **Documented dates.** For every instant and every documented format that has a place for all of it, the rendering is
read back as the same instant exactly if the format has an offset or is the date. -/
theorem date_string_iff (h : Renderings E second t render) (f : DateFormat) (hx : f.Exact second t) :
    parseDateString E (render f) = .ok t ↔ f.hasOffset = true ∨ f = .date := by
  constructor
  · intro hok
    by_contra hno
    rw [not_or, Bool.not_eq_true] at hno
    rw [h.refused hno.1 hno.2] at hok
    cases hok
  · exact h.parse hx

end

/-! The instant of the examples in the source, in microseconds. -/

def noon : ℤ := 1685622896789000

def noonText : DateFormat → String
  | .fractionOffset => "2023-06-01 12:34:56.789 +00:00"
  | .secondsOffset => "2023-06-01 12:34:56 +00:00"
  | .fraction => "2023-06-01 12:34:56.789"
  | .seconds => "2023-06-01 12:34:56"
  | .date => "2023-06-01"
  | .rfc3339 => "2023-06-01T12:34:56.789+00:00"

/-- chrono on these texts -/
def noonExternals : Externals :=
  { plainExternals with
    parseFromStr := fun s format =>
      match s, format with
      | "2023-06-01 12:34:56.789 +00:00", "%Y-%m-%d %H:%M:%S%.f %:z" => some 1685622896789000
      | "2023-06-01 12:34:56 +00:00", "%Y-%m-%d %H:%M:%S%.f %:z" => some 1685622896000000
      | "2023-06-01 12:34:56 +00:00", "%Y-%m-%d %H:%M:%S %:z" => some 1685622896000000
      | _, _ => none
    parseFromRfc3339 := fun s => if s = "2023-06-01T12:34:56.789+00:00" then some 1685622896789000 else none
    parseNaiveDate := fun s format =>
      if s = "2023-06-01" ∧ format = "%Y-%m-%d" then some 1685577600000000 else none }

theorem renderings_noon : Renderings noonExternals 1000000 noon noonText where
  offset_in_format := by
    intro f hf s
    cases f with
    | fractionOffset | secondsOffset | rfc3339 => cases hf
    | fraction | seconds | date =>
      simp only [noonExternals, DateFormat.strftime]
      split <;> simp_all
  offset_in_text := by
    intro f hf
    cases f with
    | fractionOffset | secondsOffset | rfc3339 => cases hf
    | fraction | seconds | date => exact ⟨fun g _ => by cases g <;> decide, by decide⟩
  no_trailing := by
    intro f hf
    cases f <;> first | exact absurd rfl hf | decide
  round_trip := by
    intro f hf hr hx
    cases f with
    | fractionOffset => decide
    | secondsOffset => exact absurd hx (by decide)
    | rfc3339 => exact absurd rfl hr
    | fraction | seconds | date => cases hf
  round_trip_rfc3339 := fun _ => by decide
  round_trip_date := fun hx => absurd hx (by decide)
  fraction_optional := fun hx => absurd hx (by decide)
  separator := by
    intro f hf
    cases f <;> first | exact absurd rfl hf | decide

/-- with its offset it is read -/
theorem noon_read : parseDateString noonExternals "2023-06-01 12:34:56.789 +00:00" = .ok noon :=
  (date_string_iff renderings_noon .fractionOffset trivial).2 (Or.inl rfl)

/-- without it is refused, and a filter with it panics -/
theorem time_without_offset :
    Renderings noonExternals 1000000 noon noonText ∧ DateFormat.fraction.Exact 1000000 noon ∧
    parseDateString noonExternals "2023-06-01 12:34:56.789" =
      .error "Invalid date format: 2023-06-01 12:34:56.789" ∧
    ¬ ∀ f : DateFormat, f.Exact 1000000 noon → parseDateString noonExternals (noonText f) = .ok noon := by
  have herr : parseDateString noonExternals "2023-06-01 12:34:56.789" =
      .error "Invalid date format: 2023-06-01 12:34:56.789" := renderings_noon.refused (f := .fraction) rfl nofun
  refine ⟨renderings_noon, trivial, herr, fun h => ?_⟩
  have hok := h .fraction trivial
  rw [show noonText .fraction = "2023-06-01 12:34:56.789" from rfl, herr] at hok
  cases hok

end Nanocl

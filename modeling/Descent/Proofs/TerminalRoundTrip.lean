/-
# Terminals that are written and read back

`render` writes any terminal, also one that was never read: bounds in either order, numbers that
belong to no character, a sequence without values, a quote inside a text.  Reading tells them
apart:

| terminal | its notation is |
| --- | --- |
| a range, a sequence with values | read as the terminal, or refused for what `validate` refuses |
| a text without a quote | read as the terminal, whatever else it holds |
| a sequence without values, a text with a quote | malformed |

The first two are `Writable`: what is written for them is one of their notations, and a notation
belongs to one terminal.  Of the last two, one lacks its first number and the other ends for the
reader at its inner quote, with characters left over.
-/

import Descent.Proofs.TerminalNotation

namespace Descent
namespace Notation

open Text.Numeral (Spells)

/-- **A number in the base is spelled by what is written for it.** -/
theorem Base.spells_write (base : Base) (n : UInt32) :
    Spells base.radix (base.write n) n.toNat := by
  cases base with
  | hex => exact Text.Numeral.spells_writeHex _
  | binary | decimal => exact Text.Numeral.spells_write (by decide) (by decide) _

theorem Base.isBlank_write (base : Base) (n : UInt32) :
    ∀ c ∈ base.write n, Text.isBlank c = false := fun c hc =>
  Text.Numeral.isBlank_eq_false_of_isDigit ((base.spells_write n).isDigit base.radix_le c hc)

theorem Base.toLower_letter (base : Base) : base.letter.toLower = base.letter :=
  ofLetter?_eq_some_iff.1 (ofLetter?_letter base)

theorem Base.isBlank_letter (base : Base) : Text.isBlank base.letter = false := by
  cases base <;> decide

namespace Terminal

/-- What is written for the terminal is one of its notations. -/
def Writable : Terminal → Prop
  | .range _ _ _ => True
  | .values _ numbers => numbers ≠ []
  | .quoted text _ => '"' ∉ text

instance : DecidablePred Writable
  | .range _ _ _ => inferInstanceAs (Decidable True)
  | .values _ numbers => inferInstanceAs (Decidable (numbers ≠ []))
  | .quoted text _ => inferInstanceAs (Decidable ('"' ∉ text))

/-- A quoted text as it is written. -/
theorem render_quoted (text : Text) (caseSensitive : Bool) :
    ∃ mark, Mark mark caseSensitive ∧
      (quoted text caseSensitive).render = mark ++ '"' :: (text ++ ['"']) := by
  cases caseSensitive with
  | false => exact ⟨[], .absent, rfl⟩
  | true => exact ⟨['%', 's'], .sensitive rfl, rfl⟩

theorem Notates.writable {s : Text} {t : Terminal} (h : Notates s t) : t.Writable := by
  cases h with
  | range => trivial
  | values _ hne hgroups =>
    rintro rfl
    cases hgroups
    exact hne rfl
  | quoted _ hno => exact hno

theorem notates_render {t : Terminal} (h : t.Writable) : Notates t.render t := by
  cases t with
  | range base lo hi =>
    exact .range base.toLower_letter (base.spells_write lo) (base.spells_write hi)
  | values base numbers =>
    refine .values base.toLower_letter (mt List.map_eq_nil_iff.1 h) ?_
    exact List.forall₂_map_left_iff.2 (List.forall₂_same.2 fun n _ => base.spells_write n)
  | quoted text caseSensitive =>
    obtain ⟨mark, hmark, hrender⟩ := render_quoted text caseSensitive
    rw [hrender]
    exact .quoted hmark h

/-! ## No blank character at the ends -/

theorem mem_intercalate {c : Char} {groups : List Text} (h : c ∈ ['.'].intercalate groups) :
    c = '.' ∨ ∃ digits ∈ groups, c ∈ digits := by
  cases groups with
  | nil => cases h
  | cons digits groups =>
    rw [intercalate_cons, List.mem_append, List.mem_flatMap] at h
    rcases h with h | ⟨next, hnext, h⟩
    · exact .inr ⟨digits, List.mem_cons_self, h⟩
    · rcases List.mem_cons.1 h with rfl | h
      · exact .inl rfl
      · exact .inr ⟨next, List.mem_cons_of_mem _ hnext, h⟩

/-- **What is written neither starts nor ends with a blank character.** -/
theorem trim_render (t : Terminal) : t.render.trim = t.render := by
  cases t with
  | range base lo hi =>
    refine Text.trim_eq_self_of_forall fun c hc => ?_
    simp only [render, List.mem_cons, List.mem_append] at hc
    rcases hc with rfl | rfl | hc | rfl | hc
    · rfl
    · exact base.isBlank_letter
    · exact base.isBlank_write lo c hc
    · rfl
    · exact base.isBlank_write hi c hc
  | values base numbers =>
    refine Text.trim_eq_self_of_forall fun c hc => ?_
    simp only [render, List.mem_cons] at hc
    rcases hc with rfl | rfl | hc
    · rfl
    · exact base.isBlank_letter
    · rcases mem_intercalate hc with rfl | ⟨digits, hdigits, hc⟩
      · rfl
      · obtain ⟨n, -, rfl⟩ := List.mem_map.1 hdigits
        exact base.isBlank_write n c hc
  | quoted text caseSensitive =>
    refine Text.trim_eq_self (fun c hc => ?_) fun c hc => ?_
    · cases caseSensitive with
      | false =>
        obtain rfl : '"' = c := Option.some.inj hc
        rfl
      | true =>
        obtain rfl : '%' = c := Option.some.inj hc
        rfl
    · obtain rfl : '"' = c := by
        cases caseSensitive <;> simpa [render, List.getLast?_cons] using hc
      rfl

/-! ## Reading back -/

/-- **A terminal that can be written is read back, unless its values are refused.** -/
theorem read_render_of_writable {t : Terminal} (h : t.Writable) :
    read t.render = t.validate.map fun _ => t := by
  have hnotates : Notates t.render.trim t := by
    rw [trim_render]
    exact notates_render h
  cases hvalidate : t.validate with
  | ok _ => exact read_eq_ok_iff.2 ⟨hnotates, hvalidate⟩
  | error e => exact read_eq_error_iff.2 (.inr ⟨t, hnotates, hvalidate⟩)

/-- A text with a quote inside ends for the reader where the quote stands. -/
theorem not_notates_of_quote_mem {mark text : Text} {caseSensitive : Bool}
    (hmark : Mark mark caseSensitive) (h : '"' ∈ text) (t : Terminal) :
    ¬Notates (mark ++ '"' :: (text ++ ['"'])) t := by
  obtain ⟨before, after, rfl, hbefore⟩ := List.eq_append_cons_of_mem h
  have hquotation : quotation? (mark ++ '"' :: ((before ++ '"' :: after) ++ ['"'])) =
      some (quoted before caseSensitive, after ++ ['"']) :=
    quotation?_eq_some_iff.2 ⟨mark, before, caseSensitive, hmark, hbefore, rfl, by simp⟩
  rw [← element_eq_ok_nil_iff, element, hquotation]
  simp

/-- **What is written for any other terminal is malformed.** -/
theorem malformed_render_of_not_writable {t : Terminal} (h : ¬t.Writable) :
    ∃ expected rest, read t.render = .error (.malformed expected rest) := by
  rw [read_malformed_iff, trim_render]
  intro t' hnotates
  cases t with
  | range base lo hi => exact h trivial
  | values base numbers =>
    obtain rfl : numbers = [] := not_not.1 h
    have helement : element (values base []).render = .error (.malformed .digits []) := by
      cases base <;> rfl
    cases (element_eq_ok_nil_iff.2 hnotates).symm.trans helement
  | quoted text caseSensitive =>
    obtain ⟨mark, hmark, hrender⟩ := render_quoted text caseSensitive
    rw [hrender] at hnotates
    exact not_notates_of_quote_mem hmark (not_not.1 h) t' hnotates

/-- **Writing and reading are inverse on the terminals that are writable and sound, and on no
others.**  A writable terminal that is not sound comes back as the error of `validate`, one that is
not writable is malformed; what was read can be written and read again; and nothing is read back as
another terminal. -/
theorem read_render (t : Terminal) :
    (t.Writable → read t.render = t.validate.map fun _ => t) ∧
      (¬t.Writable → ∃ expected rest, read t.render = .error (.malformed expected rest)) ∧
      (read t.render = .ok t ↔ t.Writable ∧ t.Sound) ∧
      (∀ s, read s = .ok t → read t.render = .ok t) ∧
      ∀ t', read t.render = .ok t' → t' = t := by
  have hread : t.Writable → read t.render = t.validate.map fun _ => t := read_render_of_writable
  have hok : read t.render = .ok t ↔ t.Writable ∧ t.Sound := by
    rw [← validate_eq_ok_iff]
    constructor
    · intro h
      obtain ⟨hnotates, hvalidate⟩ := read_eq_ok_iff.1 h
      exact ⟨hnotates.writable, hvalidate⟩
    · rintro ⟨hwritable, hvalidate⟩
      rw [hread hwritable, hvalidate]
      rfl
  refine ⟨hread, malformed_render_of_not_writable, hok, fun s hs => ?_, fun t' ht' => ?_⟩
  · obtain ⟨hnotates, hvalidate⟩ := read_eq_ok_iff.1 hs
    exact hok.2 ⟨hnotates.writable, validate_eq_ok_iff.1 hvalidate⟩
  · by_cases hwritable : t.Writable
    · rw [hread hwritable] at ht'
      cases hvalidate : t.validate with
      | ok _ =>
        rw [hvalidate] at ht'
        exact (Except.ok.inj ht').symm
      | error e =>
        rw [hvalidate] at ht'
        cases ht'
    · obtain ⟨expected, rest, hmalformed⟩ := malformed_render_of_not_writable hwritable
      cases hmalformed.symm.trans ht'

/-- Blank characters, `%` and letters of any script come back in a text, a quote does not; a
sequence comes back with the values it may not hold. -/
theorem read_render_blanks_quote_surrogate :
    (let t := quoted " %s\né ".toList true
     t.Writable ∧ t.Sound ∧ read t.render = .ok t) ∧
    (let t := quoted ['a', '"'] false
     ¬t.Writable ∧ ∃ expected rest, read t.render = .error (.malformed expected rest)) ∧
    (let t := values .hex [0x41, 0xD800, 0x110000]
     t.Writable ∧ read t.render = .error (.notScalar 0xD800)) :=
  ⟨⟨by decide, by decide, (read_render _).2.2.1.2 ⟨by decide, by decide⟩⟩,
    ⟨by decide, (read_render _).2.1 (by decide)⟩,
    ⟨by decide, (read_render _).1 (by decide)⟩⟩

end Terminal
end Notation
end Descent

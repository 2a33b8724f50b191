/-
# What a notation denotes

A rule may ask for a terminal by its notation.  It is then read and matched, and this comes to a
pattern that could have been given without any notation (`Terminal.Denotes`):

| notation of | denotes |
| --- | --- |
| `quoted v true` | the text `v` |
| `quoted v false` | the text `v` in any case of its ASCII letters |
| `values base numbers` | the text whose characters have these numbers |
| `range base lo hi` | one character with a number from `lo` to `hi` |

A sequence is matched character by character and a text by cutting off as many bytes as it has.
The two agree because a match of either is a text that it describes (`Pattern.match?_eq_some_iff`),
so patterns that describe the same texts are one body (`Body.pattern_congr`).  Nothing of the base
is left in what a terminal describes, nor of how its numbers were spelled.

A sequence that was never read may hold numbers that belong to no character.  It describes no text
and matches nowhere.
-/

import Descent.Proofs.Outcomes
import Descent.Proofs.Taking
import Descent.Proofs.TerminalRoundTrip

namespace Descent

namespace Text

/-- A text is settled by the numbers of its characters. -/
theorem eq_of_map_val {a b : Text} (h : a.map Char.val = b.map Char.val) : a = b :=
  (List.map_inj_right fun _ _ => Char.ext).1 h

/-- **Numbers of characters are the numbers of a text.** -/
theorem exists_map_val_iff {numbers : List UInt32} :
    (∃ t : Text, t.map Char.val = numbers) ↔ ∀ n ∈ numbers, n.isValidChar := by
  constructor
  · rintro ⟨t, rfl⟩ n hn
    obtain ⟨c, -, rfl⟩ := List.mem_map.1 hn
    exact c.valid
  · intro h
    induction numbers with
    | nil => exact ⟨[], rfl⟩
    | cons n numbers ih =>
      obtain ⟨hn, hrest⟩ := List.forall_mem_cons.1 h
      obtain ⟨t, rfl⟩ := ih hrest
      exact ⟨⟨n, hn⟩ :: t, rfl⟩

end Text

namespace Notation.Terminal

/-- The pattern that a terminal stands for, said without a terminal. -/
inductive Denotes : Terminal → Pattern → Prop where
  | sensitive (v : Text) : Denotes (quoted v true) (.literal v)
  | insensitive (v : Text) : Denotes (quoted v false) (.literalNoCase v)
  | values (base : Base) (v : Text) : Denotes (values base (v.map Char.val)) (.literal v)
  | range (base : Base) (lo hi : UInt32) :
    Denotes (range base lo hi) (.satisfying fun c => lo ≤ c.val && c.val ≤ hi)

/-- The same terminal with its numbers in another base. -/
def inBase (base : Base) : Terminal → Terminal
  | range _ lo hi => range base lo hi
  | values _ numbers => values base numbers
  | quoted text caseSensitive => quoted text caseSensitive

variable {t : Terminal} {p : Pattern}

/-- **A terminal describes what the pattern does that it denotes.** -/
theorem Denotes.describes_iff (h : t.Denotes p) (taken : Text) :
    (Pattern.terminal t).Describes taken ↔ p.Describes taken := by
  cases h with
  | sensitive v => exact Iff.rfl
  | insensitive v => exact Iff.rfl
  | values base v => exact ⟨Text.eq_of_map_val, congrArg (List.map Char.val)⟩
  | range base lo hi =>
    simp only [Pattern.Describes, Describes, Bool.and_eq_true, decide_eq_true_eq]

/-- What is sound denotes a pattern. -/
theorem exists_denotes (h : t.Sound) : ∃ p, t.Denotes p := by
  cases t with
  | range base lo hi => exact ⟨_, .range base lo hi⟩
  | values base numbers =>
    obtain ⟨v, rfl⟩ := Text.exists_map_val_iff.2 h
    exact ⟨_, .values base v⟩
  | quoted v caseSensitive =>
    cases caseSensitive with
    | true => exact ⟨_, .sensitive v⟩
    | false => exact ⟨_, .insensitive v⟩

theorem describes_inBase (t : Terminal) (base : Base) (taken : Text) :
    (t.inBase base).Describes taken ↔ t.Describes taken := by
  cases t <;> exact Iff.rfl

theorem sound_inBase (t : Terminal) (base : Base) : (t.inBase base).Sound ↔ t.Sound := by
  cases t <;> exact Iff.rfl

end Notation.Terminal

namespace Pattern

/-- Patterns that describe the same texts take the same at every place. -/
theorem matchAt_congr {p q : Pattern} (h : ∀ taken, p.Describes taken ↔ q.Describes taken)
    (c : Cursor) : p.matchAt c = q.matchAt c := by
  have hsame : p.match? c = q.match? c := by
    refine Option.ext fun c' => ?_
    rw [match?_eq_some_iff, match?_eq_some_iff]
    simp only [h]
  rw [matchAt_eq, matchAt_eq, hsame]

/-- **A sequence with a number of no character stands nowhere,** and gives back what it took. -/
theorem matchAt_values {base : Notation.Base} {numbers : List UInt32} {n : UInt32}
    (hn : n ∈ numbers) (hbad : ¬n.isValidChar) (c : Cursor) :
    (terminal (.values base numbers)).matchAt c = (false, c) :=
  matchAt_eq_false_iff.2 ⟨rfl, fun taken _ _ htaken =>
    hbad (Text.exists_map_val_iff.1 ⟨taken, htaken⟩ n hn)⟩

end Pattern

namespace Body

variable {R : Type}

open Notation (Base Terminal)
open Notation.Terminal (Notates)

/-- **Patterns that describe the same texts are one body.** -/
theorem pattern_congr {p q : Pattern} (h : ∀ taken, p.Describes taken ↔ q.Describes taken) :
    (pattern p : Body R) = pattern q := by
  funext s
  rw [pattern, pattern, Pattern.matchAt_congr h]

/-- What does not stand at the cursor fails there, and the state keeps its place. -/
theorem pattern_of_matchAt_eq_false {p : Pattern} {s : State R} {c : Cursor}
    (h : p.matchAt s.cursor = (false, c)) :
    ∃ t, pattern p s = some (.failed t) ∧ t.cursor = s.cursor := by
  obtain rfl := Pattern.matchAt_eq_false h
  rw [pattern, h]
  split
  · exact ⟨s, rfl, rfl⟩
  · exact ⟨s.recordFailure, rfl, rfl⟩

/-- **A notation matches what it denotes, on every state.**  One that is read is the same body as
the terminal, and as the pattern that the terminal denotes, of which there is one.  Notations of
the same values are the same body, in whatever bases, cases of letters and numbers of zeros these
are spelled.  A notation that cannot be read gives the parse up with it and with the reason, and
nothing else of the state changes.  A sequence that was not read and holds a number of no character
never matches, and leaves the cursor where it was, though it may have passed characters before. -/
theorem written_matches_what_it_denotes :
    (∀ (s : Text) (t : Terminal), Terminal.read s = .ok t →
        (written s : Body R) = pattern (.terminal t) ∧ (∃ p, t.Denotes p) ∧
          ∀ p, t.Denotes p → (written s : Body R) = pattern p) ∧
      (∀ (s s' : Text) (t : Terminal) (base : Base), t.Sound → Notates s.trim t →
        Notates s'.trim (t.inBase base) → (written s : Body R) = written s') ∧
      (∀ (s : Text) (cause : Notation.Error), Terminal.read s = .error cause →
        ∀ u : State R, u.isAborted = false →
          written s u = some (.failed { u with fatal := some (.badNotation s cause) })) ∧
      ∀ (base : Base) (numbers : List UInt32), (∃ n ∈ numbers, ¬n.isValidChar) →
        (∀ c : Cursor, (Pattern.terminal (.values base numbers)).matchAt c = (false, c)) ∧
          ∀ u : State R, ∃ v, pattern (.terminal (.values base numbers)) u = some (.failed v) ∧
            v.cursor = u.cursor := by
  refine ⟨fun s t hread => ?_, fun s s' t base hsound hs hs' => ?_, fun s cause hread u hfree => ?_,
    fun base numbers hnumbers => ?_⟩
  · have hwritten : (written s : Body R) = pattern (.terminal t) := written_of_read hread
    have hsound : t.Sound := Terminal.validate_eq_ok_iff.1 (Terminal.read_eq_ok_iff.1 hread).2
    exact ⟨hwritten, Terminal.exists_denotes hsound,
      fun p hp => hwritten.trans (pattern_congr hp.describes_iff)⟩
  · have hread : Terminal.read s = .ok t :=
      Terminal.read_eq_ok_iff.2 ⟨hs, Terminal.validate_eq_ok_iff.2 hsound⟩
    have hread' : Terminal.read s' = .ok (t.inBase base) :=
      Terminal.read_eq_ok_iff.2
        ⟨hs', Terminal.validate_eq_ok_iff.2 ((t.sound_inBase base).2 hsound)⟩
    rw [written_of_read hread, written_of_read hread']
    exact pattern_congr fun taken => (t.describes_inBase base taken).symm
  · rw [written_of_error hread, abort, State.abort_of_free hfree]
  · obtain ⟨n, hn, hbad⟩ := hnumbers
    have hnone (c : Cursor) : (Pattern.terminal (.values base numbers)).matchAt c = (false, c) :=
      Pattern.matchAt_values hn hbad c
    exact ⟨hnone, fun u => pattern_of_matchAt_eq_false (hnone u.cursor)⟩

/-- A range in two bases, with letters of either case, zeros and blanks around it; a sequence of
characters of one to four bytes; a notation without digits; and a surrogate after a letter: the
hypotheses of `written_matches_what_it_denotes` are satisfiable. -/
theorem written_matches_what_it_denotes_bases :
    let s : Text := " %x1f-fF ".toList
    let s' : Text := "%D031-0255".toList
    let t : Terminal := .range .hex 0x1F 0xFF
    let u : State Unit := .start "Aé€".toList .standard
    t.Sound ∧ Notates s.trim t ∧ Notates s'.trim (t.inBase .decimal) ∧
      (written s : Body Unit) = written s' ∧
      Terminal.read "%x41.E9.20AC.1F600".toList =
        .ok (.values .hex [0x41, 0xE9, 0x20AC, 0x1F600]) ∧
      (written "%x41.E9.20AC.1F600".toList : Body Unit) = pattern (.literal "Aé€😀".toList) ∧
      u.isAborted = false ∧ Terminal.read "%x".toList = .error (.malformed .digits []) ∧
      written "%x".toList u = some (.failed
        { u with fatal := some (.badNotation "%x".toList (.malformed .digits [])) }) ∧
      (∃ n ∈ [0x41, 0xD800], ¬UInt32.isValidChar n) ∧
      (Pattern.terminal (.values .hex [0x41, 0xD800])).matchAt u.cursor = (false, u.cursor) ∧
      ∃ v, pattern (.terminal (.values .hex [0x41, 0xD800])) u = some (.failed v) ∧
        v.cursor = u.cursor := by
  intro s s' t u
  have hread : Terminal.read s = .ok t := rfl
  have hread' : Terminal.read s' = .ok (t.inBase .decimal) := rfl
  have hsequence : Terminal.read "%x41.E9.20AC.1F600".toList =
      .ok (.values .hex [0x41, 0xE9, 0x20AC, 0x1F600]) :=
    Terminal.read_render_of_writable (t := .values .hex [0x41, 0xE9, 0x20AC, 0x1F600]) (by decide)
  have herror : Terminal.read "%x".toList = .error (.malformed .digits []) := rfl
  have hsurrogate : ∃ n ∈ [0x41, 0xD800], ¬UInt32.isValidChar n := by
    refine ⟨0xD800, by simp, ?_⟩
    rw [← Terminal.isScalar_iff]
    decide
  obtain ⟨hs, hvalid⟩ := Terminal.read_eq_ok_iff.1 hread
  obtain ⟨hs', -⟩ := Terminal.read_eq_ok_iff.1 hread'
  have hsound : t.Sound := Terminal.validate_eq_ok_iff.1 hvalid
  obtain ⟨hdenotes, hbases, hfails, hraw⟩ := written_matches_what_it_denotes (R := Unit)
  exact ⟨hsound, hs, hs', hbases s s' t .decimal hsound hs hs', hsequence,
    (hdenotes _ _ hsequence).2.2 _ (.values .hex "Aé€😀".toList), rfl, herror,
    hfails _ _ herror u rfl, hsurrogate, (hraw .hex _ hsurrogate).1 u.cursor,
    (hraw .hex _ hsurrogate).2 u⟩

end Body
end Descent

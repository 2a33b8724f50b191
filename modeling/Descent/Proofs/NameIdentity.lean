/-
# Which rule names are the same

A rule name keeps the spelling in which it was read, and the case of its letters does not tell it
from others.  Two ways to say so are shown to agree:

| way | compares |
| --- | --- |
| equality | the characters of the spellings, with ASCII letters small |
| hash | the bytes of the spellings, with the bytes of ASCII letters made small |

They agree on every spelling, since the bytes of other characters are no bytes of letters
(`hashed_eq_iff`).  What is a spelling is said here by ranges of characters, which leave out all
letters and digits that are not ASCII (`isRuleName_iff`); so no blank character stands in a name,
and a name that is written is read back as it is (`read_render_of_read`).
-/

import Descent.Proofs.ByteMatching
import Descent.Proofs.RuleNames

namespace Descent
namespace Notation

/-- A letter from A to Z, large or small. -/
def IsLetter (c : Char) : Prop := ('A' ≤ c ∧ c ≤ 'Z') ∨ ('a' ≤ c ∧ c ≤ 'z')

/-- A digit from 0 to 9. -/
def IsDigit (c : Char) : Prop := '0' ≤ c ∧ c ≤ '9'

theorem between_iff {lo c hi : Char} :
    (decide (lo ≤ c) && decide (c ≤ hi)) = true ↔ lo ≤ c ∧ c ≤ hi := by
  rw [Bool.and_eq_true, decide_eq_true_eq, decide_eq_true_eq]

theorem isAlpha_iff {c : Char} : c.isAlpha = true ↔ IsLetter c :=
  Bool.or_eq_true_iff.trans (or_congr decide_eq_true_iff between_iff)

theorem isAlphanum_iff {c : Char} : c.isAlphanum = true ↔ IsLetter c ∨ IsDigit c :=
  Bool.or_eq_true_iff.trans (or_congr isAlpha_iff between_iff)

theorem isRuleName_iff {t : Text} :
    IsRuleName t ↔ ∃ first rest, t = first :: rest ∧ IsLetter first ∧
      ∀ c ∈ rest, IsLetter c ∨ IsDigit c ∨ c = '-' := by
  cases t with
  | nil => simp [IsRuleName]
  | cons first rest => simp [IsRuleName, isAlpha_iff, isAlphanum_iff, or_assoc]

theorem IsRuleName.isBlank_eq_false {t : Text} (h : IsRuleName t) :
    ∀ c ∈ t, Text.isBlank c = false := by
  have hle (a b : Char) : a ≤ b ↔ a.toNat ≤ b.toNat := UInt32.le_iff_toNat_le
  have hchar (c : Char) (hc : IsLetter c ∨ IsDigit c ∨ c = '-') : Text.isBlank c = false := by
    simp only [IsLetter, IsDigit, hle, ← Char.toNat_inj, Char.reduceToNat] at hc
    simp only [Text.isBlank, Bool.or_eq_false_iff, Bool.and_eq_false_iff, decide_eq_false_iff_not,
      beq_eq_false_iff_ne, ne_eq]
    omega
  obtain ⟨first, rest, rfl, hfirst, hrest⟩ := isRuleName_iff.1 h
  exact List.forall_mem_cons.2 ⟨hchar first (.inl hfirst), fun c hc => hchar c (hrest c hc)⟩

namespace RuleName

/-- **A name that is written is read back,** in the same spelling. -/
theorem read_render_of_read {t : Text} {name : RuleName} (h : read t = .ok name) :
    read name.render = .ok name := by
  obtain ⟨hname, hspelling⟩ := read_eq_ok_iff.1 h
  have hrender : name.render = t.trim := hspelling
  have htrim : name.render.trim = name.spelling := by
    rw [hrender, hspelling]
    exact Text.trim_eq_self_of_forall hname.isBlank_eq_false
  rw [read_eq_ok_iff, htrim]
  exact ⟨hspelling ▸ hname, rfl⟩

/-- **Two names have the same hash just when they are the same.** -/
theorem hashed_eq_iff {a b : RuleName} : a.hashed = b.hashed ↔ (a == b) = true := by
  rw [hashed, hashed, Text.Utf8.map_lower_encode, Text.Utf8.map_lower_encode,
    Text.Utf8.encode_inj, beq_iff_key_eq]
  rfl

/-- **Two names are the same just when their characters are, one by one,** the case of letters
apart; their spellings then have as many bytes. -/
theorem beq_iff_forall₂ {a b : RuleName} :
    (a == b) = true ↔ a.spelling.byteLength = b.spelling.byteLength ∧
      List.Forall₂ (fun c d => c.toLower = d.toLower) a.spelling b.spelling := by
  have hkey : a.key = b.key ↔
      List.Forall₂ (fun c d => c.toLower = d.toLower) a.spelling b.spelling := by
    rw [← List.forall₂_eq_eq_eq]
    exact List.forall₂_map_left_iff.trans List.forall₂_map_right_iff
  have hlength (name : RuleName) : name.key.byteLength = name.spelling.byteLength :=
    Text.byteLength_map_toLower name.spelling
  rw [beq_iff_key_eq, hkey]
  refine ⟨fun h => ⟨?_, h⟩, fun h => h.2⟩
  rw [← hlength a, hkey.2 h, hlength b]

/-- **A rule name is what is read, and keeps its spelling.**  A text gives a name just when,
without the blank characters at its ends, it is a letter and then letters, digits and hyphens, all
of them ASCII.  The name is spelled and written that way, and is read back from what is written.
Names are the same when their spellings are as long and agree in small letters, and this is when
the bytes are the same from which their hashes are made; it is an equivalence. -/
theorem read_keeps_spelling :
    (∀ t, (∃ name, read t = .ok name) ↔ ∃ first rest, t.trim = first :: rest ∧ IsLetter first ∧
        ∀ c ∈ rest, IsLetter c ∨ IsDigit c ∨ c = '-') ∧
      (∀ t name, read t = .ok name → name.spelling = t.trim ∧ name.render = t.trim ∧
        read name.render = .ok name) ∧
      (∀ a b : RuleName,
        ((a == b) = true ↔ a.spelling.byteLength = b.spelling.byteLength ∧
          List.Forall₂ (fun c d => c.toLower = d.toLower) a.spelling b.spelling) ∧
        ((a == b) = true ↔ a.hashed = b.hashed)) ∧
      (∀ a : RuleName, (a == a) = true) ∧
      (∀ a b : RuleName, (a == b) = true → (b == a) = true) ∧
      ∀ a b c : RuleName, (a == b) = true → (b == c) = true → (a == c) = true := by
  refine ⟨fun t => ?_, fun t name h => ?_, fun a b => ⟨beq_iff_forall₂, hashed_eq_iff.symm⟩,
    fun _ => BEq.rfl, fun _ _ => BEq.symm, fun _ _ _ => BEq.trans⟩
  · rw [exists_read_iff, isRuleName_iff]
  · have hspelling := (read_eq_ok_iff.1 h).2
    exact ⟨hspelling, hspelling, read_render_of_read h⟩

/-- A name between a no-break space and a line feed, in three spellings, and a text with a letter
that is not ASCII: the hypotheses of `read_keeps_spelling` are satisfiable, and not every text gives
a name. -/
theorem read_keeps_spelling_blanks :
    let a : RuleName := ⟨"Session-Name".toList⟩
    let b : RuleName := ⟨"session-NAME".toList⟩
    let c : RuleName := ⟨"SESSION-name".toList⟩
    read "\u00a0Session-Name\n".toList = .ok a ∧ a.render = "Session-Name".toList ∧
      read a.render = .ok a ∧ (a == b) = true ∧ a.hashed = b.hashed ∧ (b == a) = true ∧
      (a == c) = true ∧ ¬∃ name, read ['n', '\u00e9'] = .ok name := by
  intro a b c
  obtain ⟨haccepts, hkeeps, hcompares, -, hsymm, htrans⟩ := read_keeps_spelling
  have ha : read "\u00a0Session-Name\n".toList = .ok a := by rfl
  have hab : (a == b) = true := by decide
  have hbc : (b == c) = true := by decide
  refine ⟨ha, rfl, (hkeeps _ _ ha).2.2, hab, (hcompares a b).2.1 hab, hsymm a b hab,
    htrans a b c hab hbc, fun h => ?_⟩
  obtain ⟨first, rest, ht, -, hrest⟩ := (haccepts _).1 h
  obtain ⟨rfl, rfl⟩ := List.cons.inj ht
  have hletter := hrest '\u00e9' (List.mem_singleton_self _)
  unfold IsLetter IsDigit at hletter
  exact absurd hletter (by decide)

end RuleName
end Notation
end Descent

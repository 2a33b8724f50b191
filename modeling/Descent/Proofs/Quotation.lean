/-
# A quoted text tells what it quotes

The written form of a character can be recognised where it ends, whichever characters are hidden:

| begins with | stands for | ends |
| --- | --- | --- |
| `\u` and a brace | the character with the number | behind the other brace |
| `\` and a letter or digit | tab, carriage return, line feed, null | there |
| `\` and another character | this character | there |
| any other character | itself | there |

So a reader of one character (`unescape?`) undoes `escape` with anything behind, and needs not know
what is hidden.  No written form begins with a quote, so the first quote that is not behind a `\` is
the closing one, and a quoted text can be told from what follows it (`encode_append_inj`).  Nor does
a written form hold a line feed, so a quoted text stays on its line (`newline_not_mem_encode`).
-/

import Descent.Proofs.Reading

namespace Descent
namespace Text
namespace Quoted

open Numeral (isDigit value write spells_write isBlank_eq_false_of_isDigit)

/-- The character for which a letter or digit behind a `\` stands. -/
def named (c : Char) : Char :=
  if c = 't' then '\t'
  else if c = 'r' then '\r'
  else if c = 'n' then '\n'
  else if c = '0' then '\x00'
  else c

/-- The character at the head of a quoted text, and what is behind it. -/
def unescape? : Text → Option (Char × Text)
  | [] => none
  | '\\' :: 'u' :: '\x7b' :: t =>
    some (Char.ofNat (value 16 (t.takeWhile (isDigit 16))), (t.dropWhile (isDigit 16)).tail)
  | '\\' :: c :: t => some (named c, t)
  | c :: t => some (c, t)

variable {hidden : Char → Bool} {c : Char}

theorem isDigit_write (n : Nat) : ∀ c ∈ write 16 n, isDigit 16 c = true :=
  (spells_write (by decide) (by decide) n).isDigit (by decide)

theorem unescape?_numbered (c : Char) (rest : Text) :
    unescape? (numbered c ++ rest) = some (c, rest) := by
  have hform : numbered c ++ rest =
      '\\' :: 'u' :: '\x7b' :: (write 16 c.toNat ++ '\x7d' :: rest) := by
    simp [numbered]
  have hbrace : ∀ x ∈ ('\x7d' :: rest).head?, isDigit 16 x = false := by
    intro x hx
    obtain rfl : '\x7d' = x := Option.some.inj hx
    decide
  obtain ⟨htake, hdrop⟩ := span_eq_iff.2 ⟨rfl, isDigit_write c.toNat, hbrace⟩
  rw [hform, unescape?, htake, hdrop, List.tail_cons,
    (spells_write (by decide) (by decide) c.toNat).value_eq (by decide), Char.ofNat_toNat]

/-- **The written form of a character is read back,** whatever is behind it. -/
theorem unescape?_escape (hidden : Char → Bool) (c : Char) (rest : Text) :
    unescape? (escape hidden c ++ rest) = some (c, rest) := by
  unfold escape
  split_ifs with hquote hback htab hreturn hfeed hnull hhidden
  · subst hquote; rfl
  · subst hback; rfl
  · subst htab; rfl
  · subst hreturn; rfl
  · subst hfeed; rfl
  · subst hnull; rfl
  · exact unescape?_numbered c rest
  · rw [List.singleton_append, unescape?]
    · exact fun _ h _ => hback h
    · exact fun _ _ h _ => hback h

theorem escape_append_inj {c c' : Char} {s s' : Text}
    (h : escape hidden c ++ s = escape hidden c' ++ s') : c = c' ∧ s = s' := by
  have hread := unescape?_escape hidden c s
  rw [h, unescape?_escape hidden c' s'] at hread
  obtain ⟨rfl, rfl⟩ := Prod.mk.inj (Option.some.inj hread)
  exact ⟨rfl, rfl⟩

/-- No written form begins with a quote. -/
theorem escape_eq_cons (hidden : Char → Bool) (c : Char) :
    ∃ first more, escape hidden c = first :: more ∧ first ≠ '"' := by
  unfold escape
  split_ifs with hquote
  iterate 6 exact ⟨_, _, rfl, by decide⟩
  · exact ⟨_, _, rfl, by decide⟩
  · exact ⟨c, [], rfl, hquote⟩

theorem escapes_append_inj {t t' s s' : Text}
    (h : t.flatMap (escape hidden) ++ '"' :: s = t'.flatMap (escape hidden) ++ '"' :: s') :
    t = t' ∧ s = s' := by
  induction t generalizing t' with
  | nil =>
    cases t' with
    | nil => exact ⟨rfl, (List.cons.inj h).2⟩
    | cons c' t' =>
      obtain ⟨first, more, hform, hne⟩ := escape_eq_cons hidden c'
      rw [List.flatMap_cons, hform] at h
      exact absurd (List.cons.inj h).1.symm hne
  | cons c t ih =>
    cases t' with
    | nil =>
      obtain ⟨first, more, hform, hne⟩ := escape_eq_cons hidden c
      rw [List.flatMap_cons, hform] at h
      exact absurd (List.cons.inj h).1 hne
    | cons c' t' =>
      rw [List.flatMap_cons, List.flatMap_cons, List.append_assoc, List.append_assoc] at h
      obtain ⟨rfl, hlater⟩ := escape_append_inj h
      obtain ⟨rfl, rfl⟩ := ih hlater
      exact ⟨rfl, rfl⟩

/-- **A quoted text can be told from what follows it,** and tells what it quotes. -/
theorem encode_append_inj {t t' s s' : Text} (h : encode hidden t ++ s = encode hidden t' ++ s') :
    t = t' ∧ s = s' := by
  have hcharacters : t.flatMap (escape hidden) ++ '"' :: s =
      t'.flatMap (escape hidden) ++ '"' :: s' := by
    simpa [encode] using h
  exact escapes_append_inj hcharacters

/-- **A quoted text stays on its line.** -/
theorem newline_not_mem_encode (hidden : Char → Bool) (t : Text) : '\n' ∉ encode hidden t := by
  have hdigits (n : Nat) : '\n' ∉ write 16 n := fun h => by
    have hblank := isBlank_eq_false_of_isDigit (isDigit_write n _ h)
    exact absurd hblank (by decide)
  have hescape (c : Char) : '\n' ∉ escape hidden c := by
    unfold escape
    split_ifs with hquote hback htab hreturn hfeed hnull hhidden
    iterate 6 decide
    · simp [numbered, hdigits]
    · exact fun h => hfeed (List.mem_singleton.1 h).symm
  simp [encode, hescape]

end Quoted
end Text
end Descent

/-
# What a notation spells

A reader takes the longest element it can from the head of a text, and a notation is read to its
end.  Said without a reader, digits spell a number (`Spells`): each of them is the digit of its
value in the radix, in either case, and the number is the sum of these values times the powers
of the radix (`Nat.ofDigits`).  Zeros in front do not count.

| statement | says |
| --- | --- |
| `whole_eq_ok_iff` | a notation is read when its element ends where the text does |
| `checked_eq_ok_iff` | what is read and then checked is accepted when it passes |
| `number?_eq_some_iff` | a number is read from all digits at the head of a text |
| `spells_write`, `spells_writeHex` | a number that is written is spelled by what is written |
-/

import Descent.Notation.Reader
import Mathlib.Data.List.Forall2
import Mathlib.Data.List.TakeWhile
import Mathlib.Data.Nat.Digits.Defs
import Mathlib.Tactic.SplitIfs

namespace Descent

namespace Text

/-- **The longest head of which a predicate holds** is the one that ends before a character of
which it does not, or at the end. -/
theorem span_eq_iff {p : Char → Bool} {t a b : Text} :
    t.takeWhile p = a ∧ t.dropWhile p = b ↔
      t = a ++ b ∧ (∀ c ∈ a, p c = true) ∧ ∀ c ∈ b.head?, p c = false := by
  constructor
  · rintro ⟨rfl, rfl⟩
    refine ⟨List.takeWhile_append_dropWhile.symm, fun c hc => List.mem_takeWhile_imp hc, ?_⟩
    intro c hc
    have hhead := List.head?_dropWhile_not p t
    rw [Option.mem_def.1 hc] at hhead
    exact hhead
  · rintro ⟨rfl, ha, hb⟩
    rw [List.takeWhile_append_of_pos ha, List.dropWhile_append_of_pos ha]
    cases b with
    | nil => simp
    | cons c b => simp [hb c rfl]

/-- Two texts that are one agree in the heads of which the predicate holds, and in what follows. -/
theorem span_append_inj {p : Char → Bool} {a b a' b' : Text} (h : a ++ b = a' ++ b')
    (ha : ∀ c ∈ a, p c = true) (hb : ∀ c ∈ b.head?, p c = false)
    (ha' : ∀ c ∈ a', p c = true) (hb' : ∀ c ∈ b'.head?, p c = false) : a = a' ∧ b = b' := by
  obtain ⟨htake, hdrop⟩ := span_eq_iff.2 ⟨rfl, ha, hb⟩
  obtain ⟨htake', hdrop'⟩ := span_eq_iff.2 ⟨h, ha', hb'⟩
  exact ⟨htake.symm.trans htake', hdrop.symm.trans hdrop'⟩

/-- A delimiter tells what stands before it from what stands behind. -/
theorem delimited_inj {p : Char → Bool} {d : Char} (hd : p d = false) {a b a' b' : Text}
    (h : a ++ d :: b = a' ++ d :: b') (ha : ∀ c ∈ a, p c = true) (ha' : ∀ c ∈ a', p c = true) :
    a = a' ∧ b = b' := by
  have hhead (rest : Text) : ∀ c ∈ (d :: rest).head?, p c = false := by
    intro c hc
    obtain rfl : d = c := Option.some.inj hc
    exact hd
  obtain ⟨rfl, hrest⟩ := span_append_inj h ha (hhead b) ha' (hhead b')
  exact ⟨rfl, (List.cons.inj hrest).2⟩

theorem trim_eq_self_of_forall {t : Text} (h : ∀ c ∈ t, isBlank c = false) : t.trim = t :=
  trim_eq_self (fun c hc => h c (List.mem_of_mem_head? hc))
    fun c hc => h c (List.mem_of_mem_getLast? hc)

namespace Numeral

/-- The character is the digit of the value, in either case. -/
def Denotes (radix : Nat) (c : Char) (d : Nat) : Prop := d < radix ∧ c.toLower = Nat.digitChar d

/-- The digits stand for the number in the radix. -/
def Spells (radix : Nat) (digits : Text) (n : Nat) : Prop :=
  digits ≠ [] ∧ ∃ values, List.Forall₂ (Denotes radix) digits values ∧
    n = Nat.ofDigits radix values.reverse

theorem toNat_toLower (c : Char) :
    c.toLower.toNat = if 65 ≤ c.toNat ∧ c.toNat ≤ 90 then c.toNat + 32 else c.toNat := by
  have hle (a b : Char) : a.val ≤ b.val ↔ a.toNat ≤ b.toNat := UInt32.le_iff_toNat_le
  unfold Char.toLower
  split
  · rename_i h
    have hup : c.toNat ≤ 90 := h.2
    have hlow : 65 ≤ c.toNat := h.1
    have hdiff : ('a'.val - 'A'.val).toNat = 32 := by decide
    rw [if_pos ⟨hlow, hup⟩]
    show (c.val + ('a'.val - 'A'.val)).toNat = _
    rw [UInt32.toNat_add, hdiff, Char.toNat_val]
    omega
  · rename_i h
    rw [if_neg fun hc => h ⟨hc.1, hc.2⟩]

theorem toNat_digitChar {d : Nat} (h : d < 16) :
    (Nat.digitChar d).toNat = if d < 10 then 48 + d else 87 + d := by
  revert d
  decide

theorem rank?_eq_some_iff {c : Char} {d : Nat} :
    rank? c = some d ↔ (48 ≤ c.toNat ∧ c.toNat ≤ 57 ∧ d = c.toNat - 48) ∨
      (97 ≤ c.toNat ∧ c.toNat ≤ 122 ∧ d = c.toNat - 87) ∨
      (65 ≤ c.toNat ∧ c.toNat ≤ 90 ∧ d = c.toNat - 55) := by
  have hle (a b : Char) : a ≤ b ↔ a.toNat ≤ b.toNat := UInt32.le_iff_toNat_le
  unfold rank?
  simp only [hle, Char.reduceToNat]
  split_ifs <;> simp only [Option.some.injEq, false_iff] <;> omega

/-- **A digit is read as its value.** -/
theorem digit?_eq_some_iff {radix : Nat} (hradix : radix ≤ 16) {c : Char} {d : Nat} :
    digit? radix c = some d ↔ Denotes radix c d := by
  unfold digit? Denotes
  rw [Option.filter_eq_some_iff, rank?_eq_some_iff, decide_eq_true_eq, and_comm]
  refine and_congr_right fun hd => ?_
  rw [← Char.toNat_inj, toNat_toLower, toNat_digitChar (by omega)]
  split_ifs <;> omega

theorem isDigit_iff {radix : Nat} (hradix : radix ≤ 16) {c : Char} :
    isDigit radix c = true ↔ ∃ d, Denotes radix c d := by
  rw [isDigit, Option.isSome_iff_exists]
  simp only [digit?_eq_some_iff hradix]

/-- Digits are added up from the left as places of the radix. -/
theorem foldl_eq_ofDigits {radix : Nat} (hradix : radix ≤ 16) {digits : Text} {values : List Nat}
    (h : List.Forall₂ (Denotes radix) digits values) (n : Nat) :
    digits.foldl (fun n c => n * radix + (digit? radix c).getD 0) n =
      n * radix ^ values.length + Nat.ofDigits radix values.reverse := by
  induction h generalizing n with
  | nil => simp
  | @cons c d digits values hd hdigits ih =>
    rw [List.foldl_cons, (digit?_eq_some_iff hradix).2 hd, Option.getD_some, ih, List.reverse_cons,
      Nat.ofDigits_append, Nat.ofDigits_singleton, List.length_reverse, List.length_cons,
      Nat.pow_succ]
    ring

theorem Spells.value_eq {radix n : Nat} (hradix : radix ≤ 16) {digits : Text}
    (h : Spells radix digits n) : value radix digits = n := by
  obtain ⟨-, values, hvalues, rfl⟩ := h
  rw [value, foldl_eq_ofDigits hradix hvalues, Nat.zero_mul, Nat.zero_add]

/-- **Digits that are not none spell their value.** -/
theorem spells_value {radix : Nat} (hradix : radix ≤ 16) {digits : Text} (hne : digits ≠ [])
    (h : ∀ c ∈ digits, isDigit radix c = true) : Spells radix digits (value radix digits) := by
  obtain ⟨values, hvalues⟩ : ∃ values, List.Forall₂ (Denotes radix) digits values := by
    clear hne
    induction digits with
    | nil => exact ⟨[], .nil⟩
    | cons c digits ih =>
      obtain ⟨d, hd⟩ := (isDigit_iff hradix).1 (h c List.mem_cons_self)
      obtain ⟨values, hvalues⟩ := ih fun x hx => h x (List.mem_cons_of_mem _ hx)
      exact ⟨d :: values, .cons hd hvalues⟩
  refine ⟨hne, values, hvalues, ?_⟩
  rw [value, foldl_eq_ofDigits hradix hvalues, Nat.zero_mul, Nat.zero_add]

theorem Spells.isDigit {radix n : Nat} (hradix : radix ≤ 16) {digits : Text}
    (h : Spells radix digits n) : ∀ c ∈ digits, isDigit radix c = true := by
  obtain ⟨-, values, hvalues, -⟩ := h
  intro c hc
  induction hvalues with
  | nil => cases hc
  | cons hd _ ih =>
    rcases List.mem_cons.1 hc with rfl | hc
    · exact (isDigit_iff hradix).2 ⟨_, hd⟩
    · exact ih hc

/-- A digit is not blank. -/
theorem isBlank_eq_false_of_isDigit {radix : Nat} {c : Char} (h : isDigit radix c = true) :
    isBlank c = false := by
  obtain ⟨d, hd⟩ := Option.isSome_iff_exists.1 h
  have hrank := rank?_eq_some_iff.1 (Option.filter_eq_some_iff.1 hd).1
  simp only [isBlank, Bool.or_eq_false_iff, Bool.and_eq_false_iff, decide_eq_false_iff_not,
    beq_eq_false_iff_ne, ne_eq]
  omega

/-- One more digit on the right. -/
theorem Spells.append_singleton {radix n d : Nat} {digits : Text} {c : Char}
    (h : Spells radix digits n) (hd : Denotes radix c d) :
    Spells radix (digits ++ [c]) (n * radix + d) := by
  obtain ⟨-, values, hvalues, rfl⟩ := h
  refine ⟨by simp, values ++ [d], List.rel_append hvalues (.cons hd .nil), ?_⟩
  rw [List.reverse_append, List.reverse_singleton, List.singleton_append, Nat.ofDigits_cons]
  ring

/-- A zero in front does not count. -/
theorem Spells.cons_zero {radix n : Nat} {digits : Text} {c : Char} (h : Spells radix digits n)
    (hc : Denotes radix c 0) : Spells radix (c :: digits) n := by
  obtain ⟨-, values, hvalues, rfl⟩ := h
  refine ⟨by simp, 0 :: values, .cons hc hvalues, ?_⟩
  rw [List.reverse_cons, Nat.ofDigits_append, Nat.ofDigits_singleton, Nat.mul_zero, Nat.add_zero]

/-- The digits of a number spell it, in any case of the letters. -/
theorem spells_map_toDigits {radix : Nat} (htwo : 1 < radix) {f : Char → Char}
    (hf : ∀ d, d < radix → Denotes radix (f (Nat.digitChar d)) d) (n : Nat) :
    Spells radix ((Nat.toDigits radix n).map f) n := by
  induction n using Nat.strongRecOn with
  | ind n ih =>
    by_cases hn : n < radix
    · rw [Nat.toDigits_of_lt_base hn]
      exact ⟨by simp, [n], .cons (hf n hn) .nil, by simp⟩
    · have hdiv : n / radix < n := Nat.div_lt_self (by omega) htwo
      have hmod : n % radix < radix := Nat.mod_lt _ (by omega)
      have hspells := (ih _ hdiv).append_singleton (hf _ hmod)
      rw [Nat.div_add_mod'] at hspells
      rw [Nat.toDigits_of_base_le htwo (by omega), List.map_append]
      exact hspells

/-- **A number is spelled by what is written for it.** -/
theorem spells_write {radix : Nat} (htwo : 1 < radix) (hradix : radix ≤ 16) (n : Nat) :
    Spells radix (write radix n) n := by
  have hlower : ∀ d < 16, (Nat.digitChar d).toLower = Nat.digitChar d := by decide
  have hspells := spells_map_toDigits (f := id) htwo
    (fun d hd => ⟨hd, hlower d (by omega)⟩) n
  rwa [List.map_id] at hspells

theorem spells_writeHex (n : Nat) : Spells 16 (writeHex n) n := by
  have hlower : ∀ d < 16, (Nat.digitChar d).toUpper.toLower = Nat.digitChar d := by decide
  have hspells := spells_map_toDigits (f := Char.toUpper) (by decide)
    (fun d hd => ⟨hd, hlower d hd⟩) n
  unfold writeHex
  dsimp only
  split
  · exact hspells.cons_zero ⟨by decide, by decide⟩
  · exact hspells

end Numeral
end Text

namespace Notation

open Text.Numeral (Spells isDigit)

theorem whole_eq_ok_iff {α : Type} {read : Reader α} {t : Text} {a : α} :
    whole read t = .ok a ↔ read t.trim = .ok (a, []) := by
  unfold whole
  split
  · rename_i b hread
    simp [hread]
  · rename_i b rest hrest hread
    simp only [hread, reduceCtorEq, Except.ok.injEq, Prod.mk.injEq, false_iff, not_and]
    exact fun _ => hrest
  · rename_i e hread
    simp [hread]

/-- What is refused is an element that is missing, if the element itself is refused for no other
reason. -/
theorem exists_malformed_of_whole {α : Type} {read : Reader α} {t : Text} {e : Error}
    (hread : ∀ e, read t.trim = .error e → ∃ expected rest, e = .malformed expected rest)
    (h : whole read t = .error e) : ∃ expected rest, e = .malformed expected rest := by
  unfold whole at h
  split at h
  · cases h
  · obtain rfl := Except.error.inj h
    exact ⟨_, _, rfl⟩
  · rename_i e' he'
    obtain rfl := Except.error.inj h
    exact hread _ he'

/-- What is read and then checked is what is read and passes. -/
theorem checked_eq_ok_iff {α : Type} {read : Except Error α} {check : α → Except Error Unit}
    {a : α} :
    (do let a ← read; check a; return a) = .ok a ↔ read = .ok a ∧ check a = .ok () := by
  cases read with
  | error e => simp [bind, Except.bind]
  | ok b =>
    simp only [bind, Except.bind, Except.ok.injEq]
    constructor
    · intro h
      cases hcheck : check b with
      | error e => simp [hcheck] at h
      | ok _ =>
        obtain rfl : b = a := by simpa [hcheck, pure, Except.pure] using h
        exact ⟨rfl, hcheck⟩
    · rintro ⟨rfl, hcheck⟩
      rw [hcheck]
      rfl

/-- It is refused where it is not read, or where what is read does not pass. -/
theorem checked_eq_error_iff {α : Type} {read : Except Error α} {check : α → Except Error Unit}
    {e : Error} :
    (do let a ← read; check a; return a) = .error e ↔
      read = .error e ∨ ∃ a, read = .ok a ∧ check a = .error e := by
  cases read with
  | error e' => simp [bind, Except.bind]
  | ok b =>
    simp only [bind, Except.bind, reduceCtorEq, Except.ok.injEq, false_or, exists_eq_left']
    cases check b <;> simp [pure, Except.pure]

/-- **A number is read from all the digits at the head of a text.** -/
theorem number?_eq_some_iff {radix : Nat} (hradix : radix ≤ 16) {t rest : Text} {n : Nat} :
    number? radix t = some (n, rest) ↔
      ∃ digits, t = digits ++ rest ∧ Spells radix digits n ∧
        ∀ c ∈ rest.head?, isDigit radix c = false := by
  unfold number?
  dsimp only
  constructor
  · intro h
    split at h
    · cases h
    · rename_i hne
      obtain ⟨rfl, hrest⟩ := Prod.mk.inj (Option.some.inj h)
      obtain ⟨ht, hall, hend⟩ := Text.span_eq_iff.1 ⟨rfl, hrest⟩
      exact ⟨_, ht, Text.Numeral.spells_value hradix hne hall, hend⟩
  · rintro ⟨digits, ht, hspells, hend⟩
    obtain ⟨htake, hdrop⟩ := Text.span_eq_iff.2 ⟨ht, hspells.isDigit hradix, hend⟩
    rw [htake, hdrop, if_neg hspells.1, hspells.value_eq hradix]

end Notation
end Descent

/-
# What a grammar holds after any requests

A grammar is built by requests to give a body to a name, each of which is granted or refused
(`Grammar.serve`); a refused one leaves it as it was.  What it holds in the end can be told from
the requests alone.  Of those that give names that fold alike,

| request | leaves |
| --- | --- |
| the first one | the spelling of the name |
| the last one | the body |

One step changes the body under one folded name and adds that name at the end unless it is there
(`lookup_serve`, `names_serve`); the statements about all requests follow by induction on them,
the last one taken off.
-/

import Descent.Grammar
import Descent.Proofs.RuleNames
import Mathlib.Data.Finset.Card

namespace Descent
namespace Grammar

open Notation (IsRuleName RuleName)
open Notation.RuleName (SameName folded? sameName_iff_of_folded?)

variable {R : Type}

/-- The grammar after a request to give a body to a name, which is as before if it is refused. -/
def serve (g : Grammar R) (request : Text × Body R) : Grammar R :=
  match g.insert request.1 request.2 with
  | .ok g' => g'
  | .error _ => g

/-- The grammar that is built by requests, one after another. -/
def ofRequests (requests : List (Text × Body R)) : Grammar R := requests.foldl serve empty

theorem ofRequests_append_singleton (requests : List (Text × Body R)) (request : Text × Body R) :
    ofRequests (requests ++ [request]) = (ofRequests requests).serve request := by
  rw [ofRequests, List.foldl_append]
  rfl

theorem insert_of_isRuleName {name : Text} (h : IsRuleName name.trim) (g : Grammar R)
    (body : Body R) : g.insert name body = .ok ⟨assign ⟨name.trim⟩ body g.entries⟩ := by
  have hread : RuleName.read name = .ok ⟨name.trim⟩ := RuleName.read_eq_ok_iff.2 ⟨h, rfl⟩
  rw [insert, hread]

theorem insert_of_not_isRuleName {name : Text} (h : ¬IsRuleName name.trim) (g : Grammar R)
    (body : Body R) : ∃ cause, g.insert name body = .error (.badNotation name cause) := by
  unfold insert
  split
  · rename_i key hread
    exact absurd (RuleName.exists_read_iff.1 ⟨key, hread⟩) h
  · exact ⟨_, rfl⟩

/-! ## One request -/

/-- Giving a body to a name changes what is found under this name, and nothing else. -/
theorem find?_assign (name key : RuleName) (body : Body R) (entries : List (RuleName × Body R)) :
    ((assign name body entries).find? fun entry => entry.1 == key).map Prod.snd =
      if name.key = key.key then some body
      else (entries.find? fun entry => entry.1 == key).map Prod.snd := by
  have hbeq (a b : RuleName) : (a == b) = decide (a.key = b.key) := by
    rw [Bool.eq_iff_iff, RuleName.beq_iff_key_eq, decide_eq_true_eq]
  induction entries with
  | nil =>
    by_cases h : name.key = key.key <;> simp [assign, hbeq, h]
  | cons entry entries ih =>
    obtain ⟨other, found⟩ := entry
    simp only [assign, hbeq, decide_eq_true_eq] at ih ⊢
    by_cases hother : other.key = name.key
    · by_cases h : name.key = key.key <;> simp [hother, h]
    · by_cases hkey : other.key = key.key
      · have h : name.key ≠ key.key := fun h => hother (hkey.trans h.symm)
        rw [if_neg hother]
        simp [hkey, h]
      · simp [hother, hkey, ih]

/-- A new name comes after the others, and one that is there keeps its spelling. -/
theorem map_fst_assign (name : RuleName) (body : Body R) (entries : List (RuleName × Body R)) :
    (assign name body entries).map Prod.fst =
      if name.key ∈ entries.map (·.1.key) then entries.map Prod.fst
      else entries.map Prod.fst ++ [name] := by
  induction entries with
  | nil => rfl
  | cons entry entries ih =>
    obtain ⟨other, found⟩ := entry
    simp only [assign, RuleName.beq_iff_key_eq, List.map_cons, List.mem_cons]
    by_cases hother : other.key = name.key
    · simp [hother]
    · have hne : name.key ≠ other.key := fun h => hother h.symm
      rw [if_neg hother, List.map_cons, ih]
      by_cases hmem : name.key ∈ entries.map (·.1.key) <;> simp [hne, hmem]

theorem lookup_serve (g : Grammar R) (request : Text × Body R) (name : RuleName) :
    (g.serve request).lookup name =
      if folded? request.1 = some name.key then some request.2 else g.lookup name := by
  obtain ⟨text, body⟩ := request
  unfold serve folded?
  by_cases h : IsRuleName text.trim
  · rw [insert_of_isRuleName h, if_pos h]
    simp only [Option.some.injEq]
    exact find?_assign _ _ _ _
  · obtain ⟨cause, hinsert⟩ := insert_of_not_isRuleName h g body
    rw [hinsert, if_neg h]
    rfl

/-- The names of a grammar, folded. -/
def keys (g : Grammar R) : List Text := g.entries.map (·.1.key)

/-- A name is added at the end, in the spelling in which it is given, unless it is there. -/
theorem names_serve (g : Grammar R) (request : Text × Body R) :
    (g.serve request).entries.map Prod.fst =
      match folded? request.1 with
      | some k =>
        if k ∈ g.keys then g.entries.map Prod.fst
        else g.entries.map Prod.fst ++ [⟨request.1.trim⟩]
      | none => g.entries.map Prod.fst := by
  obtain ⟨text, body⟩ := request
  unfold serve folded?
  by_cases h : IsRuleName text.trim
  · rw [insert_of_isRuleName h, if_pos h]
    exact map_fst_assign _ _ _
  · obtain ⟨cause, hinsert⟩ := insert_of_not_isRuleName h g body
    rw [hinsert, if_neg h]

theorem keys_serve (g : Grammar R) (request : Text × Body R) :
    (g.serve request).keys =
      match folded? request.1 with
      | some k => if k ∈ g.keys then g.keys else g.keys ++ [k]
      | none => g.keys := by
  have hkeys (h : Grammar R) : h.keys = (h.entries.map Prod.fst).map RuleName.key := by
    rw [keys, List.map_map]
    rfl
  rw [hkeys (g.serve request), names_serve]
  cases hfold : folded? request.1 with
  | none => exact (hkeys g).symm
  | some k =>
    have hk : (⟨request.1.trim⟩ : RuleName).key = k := (RuleName.isRuleName_of_folded? hfold).2
    dsimp only
    split
    · exact (hkeys g).symm
    · rw [List.map_append, ← hkeys, List.map_singleton, hk]

/-! ## All requests -/

/-- **The last body is found,** of those that were given to the name. -/
theorem lookup_ofRequests (requests : List (Text × Body R)) (name : RuleName) :
    (ofRequests requests).lookup name =
      (requests.reverse.find? fun request => folded? request.1 = some name.key).map Prod.snd := by
  induction requests using List.reverseRecOn with
  | nil => rfl
  | append_singleton requests request ih =>
    rw [ofRequests_append_singleton, lookup_serve, List.reverse_append, List.reverse_singleton,
      List.singleton_append, List.find?_cons]
    by_cases h : folded? request.1 = some name.key
    · simp [h]
    · simp [h, ih]

theorem mem_keys_ofRequests {requests : List (Text × Body R)} {k : Text} :
    k ∈ (ofRequests requests).keys ↔ ∃ request ∈ requests, folded? request.1 = some k := by
  induction requests using List.reverseRecOn with
  | nil => simp [ofRequests, keys, empty]
  | append_singleton requests request ih =>
    rw [ofRequests_append_singleton, keys_serve]
    simp only [List.mem_append, List.mem_singleton, or_and_right, exists_or, exists_eq_left, ← ih]
    cases hfold : folded? request.1 with
    | none => simp
    | some k' =>
      dsimp only
      rw [Option.some.injEq]
      split
      · rename_i hmem
        exact ⟨.inl, fun h => h.elim id fun h => h ▸ hmem⟩
      · rw [List.mem_append, List.mem_singleton, eq_comm]

/-- No two names fold alike. -/
theorem nodup_keys_ofRequests (requests : List (Text × Body R)) :
    (ofRequests requests).keys.Nodup := by
  induction requests using List.reverseRecOn with
  | nil => exact List.nodup_nil
  | append_singleton requests request ih =>
    rw [ofRequests_append_singleton, keys_serve]
    cases folded? request.1 with
    | none => exact ih
    | some k =>
      dsimp only
      split
      · exact ih
      · rename_i hnew
        exact List.nodup_append.2 ⟨ih, List.nodup_singleton k, fun a ha b hb => by
          rintro rfl
          exact hnew (List.mem_singleton.1 hb ▸ ha)⟩

/-- **The first spelling is kept,** of those in which the name was given. -/
theorem mem_names_ofRequests {requests : List (Text × Body R)} {spelling : Text} :
    spelling ∈ (ofRequests requests).names ↔
      ∃ k request, requests.find? (fun request => folded? request.1 = some k) = some request ∧
        request.1.trim = spelling := by
  have hnames (g : Grammar R) : g.names = (g.entries.map Prod.fst).map RuleName.spelling := by
    rw [names, List.map_map]
    rfl
  induction requests using List.reverseRecOn with
  | nil => simp [ofRequests, names, empty]
  | append_singleton requests request ih =>
    have hnone (k : Text) : requests.find? (fun request => folded? request.1 = some k) = none ↔
        k ∉ (ofRequests requests).keys := by
      rw [mem_keys_ofRequests, List.find?_eq_none]
      simp
    have hlast (k : Text) (r : Text × Body R) :
        [request].find? (fun request => folded? request.1 = some k) = some r ↔
          folded? request.1 = some k ∧ request = r := by
      rw [List.find?_singleton]
      simp
    rw [ofRequests_append_singleton, hnames, names_serve]
    simp only [List.find?_append, Option.or_eq_some_iff, or_and_right, exists_or, ← ih, hnone,
      hlast]
    cases hfold : folded? request.1 with
    | none => simp [hnames]
    | some k =>
      dsimp only
      split
      · rename_i hmem
        simp [hnames, hmem]
      · rename_i hnew
        simp [hnames, hnew, eq_comm]

/-! ## What is asked of a grammar -/

theorem get_eq_ok_iff {g : Grammar R} {query : Text} {body : Body R} :
    g.get query = .ok body ↔
      ∃ name, RuleName.read query = .ok name ∧ g.lookup name = some body := by
  unfold get
  cases hread : RuleName.read query with
  | error e => simp [Except.toOption]
  | ok name =>
    have hbind : (Except.toOption (.ok name : Except Notation.Error RuleName)).bind g.lookup =
        g.lookup name := rfl
    rw [hbind]
    cases hlookup : g.lookup name with
    | none => simp [hlookup]
    | some found => simp [hlookup]

/-- What has no body under the name is unknown. -/
theorem get_eq_error_iff {g : Grammar R} {query : Text} {e : Error} :
    g.get query = .error e ↔ e = .unknownRule query ∧ ∀ body, g.get query ≠ .ok body := by
  constructor
  · intro h
    refine ⟨?_, fun body hbody => by cases h.symm.trans hbody⟩
    unfold get at h
    split at h
    · cases h
    · exact (Except.error.inj h).symm
  · rintro ⟨rfl, hno⟩
    unfold get at hno ⊢
    split
    · rename_i body hbody
      rw [hbody] at hno
      exact absurd rfl (hno body)
    · rfl

/-- The last member of which a predicate holds. -/
theorem find?_reverse_eq_some_iff {α : Type} {p : α → Bool} {l : List α} {a : α} :
    l.reverse.find? p = some a ↔
      p a = true ∧ ∃ earlier later, l = earlier ++ a :: later ∧ ∀ b ∈ later, p b = false := by
  rw [List.find?_eq_some_iff_append]
  refine and_congr_right fun _ => ?_
  constructor
  · rintro ⟨later, earlier, hl, hlater⟩
    refine ⟨earlier.reverse, later.reverse, ?_, by simpa using hlater⟩
    rw [← List.reverse_reverse l, hl]
    simp
  · rintro ⟨earlier, later, rfl, hlater⟩
    exact ⟨later.reverse, earlier.reverse, by simp, by simpa using hlater⟩

/-- **The body of a name is that of the last request for it.** -/
theorem get_ofRequests_eq_ok_iff {requests : List (Text × Body R)} {query : Text} {body : Body R} :
    (ofRequests requests).get query = .ok body ↔
      ∃ earlier name later, requests = earlier ++ (name, body) :: later ∧ SameName name query ∧
        ∀ request ∈ later, ¬SameName request.1 query := by
  rw [get_eq_ok_iff]
  constructor
  · rintro ⟨key, hread, hlookup⟩
    have hsame (a : Text) := sameName_iff_of_folded? (a := a) (RuleName.folded?_of_read hread)
    rw [lookup_ofRequests, Option.map_eq_some_iff] at hlookup
    obtain ⟨⟨name, _⟩, hfind, rfl⟩ := hlookup
    obtain ⟨hname, earlier, later, rfl, hlater⟩ := find?_reverse_eq_some_iff.1 hfind
    refine ⟨earlier, name, later, rfl, (hsame _).2 (of_decide_eq_true hname), fun r hr => ?_⟩
    rw [hsame]
    exact of_decide_eq_false (hlater r hr)
  · rintro ⟨earlier, name, later, rfl, hname, hlater⟩
    obtain ⟨key, hread⟩ := RuleName.exists_read_iff.2 hname.2.1
    have hsame (a : Text) := sameName_iff_of_folded? (a := a) (RuleName.folded?_of_read hread)
    refine ⟨key, hread, ?_⟩
    rw [lookup_ofRequests, Option.map_eq_some_iff]
    refine ⟨(name, body), find?_reverse_eq_some_iff.2
      ⟨decide_eq_true ((hsame _).1 hname), earlier, later, rfl, fun r hr => ?_⟩, rfl⟩
    exact decide_eq_false fun h => hlater r hr ((hsame _).2 h)

theorem exists_get_ofRequests_iff {requests : List (Text × Body R)} {query : Text} :
    (∃ body, (ofRequests requests).get query = .ok body) ↔
      ∃ request ∈ requests, SameName request.1 query := by
  constructor
  · rintro ⟨body, hget⟩
    obtain ⟨earlier, name, later, rfl, hname, -⟩ := get_ofRequests_eq_ok_iff.1 hget
    exact ⟨(name, body), by simp, hname⟩
  · rintro ⟨request, hmem, hname⟩
    obtain ⟨key, hread⟩ := RuleName.exists_read_iff.2 hname.2.1
    have hfold := (sameName_iff_of_folded? (RuleName.folded?_of_read hread)).1 hname
    have hfound : (requests.reverse.find? fun r => folded? r.1 = some key.key).isSome := by
      rw [List.find?_isSome]
      exact ⟨request, List.mem_reverse.2 hmem, decide_eq_true hfold⟩
    obtain ⟨found, hfound⟩ := Option.isSome_iff_exists.1 hfound
    refine ⟨found.2, get_eq_ok_iff.2 ⟨key, hread, ?_⟩⟩
    rw [lookup_ofRequests, hfound, Option.map_some]

/-- **As many names as fold apart.** -/
theorem size_ofRequests (requests : List (Text × Body R)) :
    (ofRequests requests).size =
      (requests.filterMap fun request => folded? request.1).toFinset.card := by
  have hset : (ofRequests requests).keys.toFinset =
      (requests.filterMap fun request => folded? request.1).toFinset := by
    ext k
    rw [List.mem_toFinset, List.mem_toFinset, mem_keys_ofRequests, List.mem_filterMap]
  rw [← hset, List.toFinset_card_of_nodup (nodup_keys_ofRequests requests), keys, List.length_map,
    size]

/-- **A name is spelled as in the first request for it.** -/
theorem mem_names_ofRequests_iff {requests : List (Text × Body R)} {spelling : Text} :
    spelling ∈ (ofRequests requests).names ↔
      ∃ earlier name body later, requests = earlier ++ (name, body) :: later ∧
        IsRuleName name.trim ∧ name.trim = spelling ∧
        ∀ request ∈ earlier, ¬SameName request.1 name := by
  rw [mem_names_ofRequests]
  simp only [List.find?_eq_some_iff_append]
  constructor
  · rintro ⟨k, ⟨name, body⟩, ⟨hname, earlier, later, rfl, hearlier⟩, rfl⟩
    have hfold : folded? name = some k := of_decide_eq_true hname
    refine ⟨earlier, name, body, later, rfl, (RuleName.isRuleName_of_folded? hfold).1, rfl,
      fun r hr => ?_⟩
    rw [sameName_iff_of_folded? hfold]
    simpa using hearlier r hr
  · rintro ⟨earlier, name, body, later, rfl, hname, rfl, hearlier⟩
    have hfold : folded? name = some (name.trim.map Char.toLower) := if_pos hname
    refine ⟨_, (name, body), ⟨decide_eq_true hfold, earlier, later, rfl, fun r hr => ?_⟩, rfl⟩
    have hother := hearlier r hr
    rw [sameName_iff_of_folded? hfold] at hother
    simpa using hother

/-- **What a grammar holds after any requests.**  A request is granted just when what it gives is
a rule name but for blank characters at its ends; else it is refused under the name as it was
given, and changes nothing.  The body of a name is that of the last granted request for it, in
any case of its letters, and a name for which there is none is unknown, as is what is no rule
name.  The names are those of the granted requests, one for all that fold alike, each in the
spelling in which it was given first. -/
theorem ofRequests_keeps_first_name_last_body (requests : List (Text × Body R)) :
    (∀ name body, IsRuleName name.trim →
        (ofRequests requests).insert name body = .ok (ofRequests (requests ++ [(name, body)]))) ∧
      (∀ name body, ¬IsRuleName name.trim →
        (∃ cause, (ofRequests requests).insert name body = .error (.badNotation name cause)) ∧
          ofRequests (requests ++ [(name, body)]) = ofRequests requests) ∧
      (∀ query body, (ofRequests requests).get query = .ok body ↔
        ∃ earlier name later, requests = earlier ++ (name, body) :: later ∧
          SameName name query ∧ ∀ request ∈ later, ¬SameName request.1 query) ∧
      (∀ query e, (ofRequests requests).get query = .error e ↔
        e = .unknownRule query ∧ ∀ request ∈ requests, ¬SameName request.1 query) ∧
      (∀ query, (ofRequests requests).contains query = true ↔
        ∃ body, (ofRequests requests).get query = .ok body) ∧
      (ofRequests requests).size =
        (requests.filterMap fun request => folded? request.1).toFinset.card ∧
      (∀ spelling, spelling ∈ (ofRequests requests).names ↔
        ∃ earlier name body later, requests = earlier ++ (name, body) :: later ∧
          IsRuleName name.trim ∧ name.trim = spelling ∧
          ∀ request ∈ earlier, ¬SameName request.1 name) ∧
      ((ofRequests requests).names.map (·.map Char.toLower)).Nodup := by
  refine ⟨fun name body hname => ?_, fun name body hname => ?_, fun query body =>
    get_ofRequests_eq_ok_iff, fun query e => ?_, fun query => ?_, size_ofRequests requests,
    fun spelling => mem_names_ofRequests_iff, ?_⟩
  · rw [ofRequests_append_singleton, serve, insert_of_isRuleName hname]
  · obtain ⟨cause, hinsert⟩ := insert_of_not_isRuleName hname (ofRequests requests) body
    refine ⟨⟨cause, hinsert⟩, ?_⟩
    rw [ofRequests_append_singleton, serve, hinsert]
  · rw [get_eq_error_iff]
    refine and_congr_right fun _ => ?_
    have hno : (¬∃ body, (ofRequests requests).get query = .ok body) ↔
        ¬∃ request ∈ requests, SameName request.1 query := not_congr exists_get_ofRequests_iff
    simpa using hno
  · rw [contains]
    cases (ofRequests requests).get query <;> simp [Except.isOk, Except.toBool]
  · rw [names, List.map_map]
    exact nodup_keys_ofRequests requests

/-- Four requests, two of them for one name and one for none: the hypotheses of
`ofRequests_keeps_first_name_last_body` are satisfiable, and the second body goes with the first
spelling. -/
theorem ofRequests_keeps_first_name_last_body_twice :
    let a : Body Unit := Body.succeed
    let b : Body Unit := Body.fail
    let requests := [(" Ab-1 ".toList, a), ("1st".toList, a), ("c".toList, a), ("aB-1".toList, b)]
    (∃ cause, (ofRequests requests).insert "1st".toList a =
        .error (.badNotation "1st".toList cause)) ∧
      (ofRequests requests).insert "d".toList a = .ok (ofRequests (requests ++ [("d".toList, a)])) ∧
      (ofRequests requests).get "AB-1".toList = .ok b ∧
      (ofRequests requests).get "1st".toList = .error (.unknownRule "1st".toList) ∧
      (ofRequests requests).size = 2 ∧ "Ab-1".toList ∈ (ofRequests requests).names := by
  intro a b requests
  obtain ⟨hgranted, hrefused, hget, herror, -, hsize, hnames, -⟩ :=
    ofRequests_keeps_first_name_last_body requests
  refine ⟨(hrefused _ a (by decide)).1, hgranted _ a (by decide), ?_, ?_, ?_, ?_⟩
  · exact (hget _ _).2 ⟨requests.take 3, _, [], rfl, by decide, by simp⟩
  · exact (herror _ _).2 ⟨rfl, by decide⟩
  · rw [hsize]
    decide
  · exact (hnames _).2 ⟨[], _, a, requests.tail, rfl, by decide, by decide, by simp⟩

end Grammar
end Descent

import ContractLex.Payload

/-!
# The flag of a payload

A payload carries a flag that tells tokens from errors. Which of the two a JSON value is read as is
decided by its member `ok`, and an object's field of that name is the same member
(`fields?_object`), so an object is read as what its flag says. An array has fields but no members:
it is always read as an error, and its first item can say otherwise. `parsed_flag` says that this is
the one way in which the flag of a payload that was read can be wrong.
-/

namespace ContractLex

/-! ## Fields -/

namespace Json

theorem map_find?_name (members : List (String × Json)) (name : String) :
    (members.find? (·.1 == name)).map (·.2) = members.lookup name := by
  induction members with
  | nil => rfl
  | cons member members ih =>
      obtain ⟨other, value⟩ := member
      rw [List.lookup_cons, List.find?_cons, BEq.comm (a := other)]
      cases name == other with
      | true => rfl
      | false => exact ih

/-- The fields of an object are its members. -/
theorem fields?_object (names : List String) (least : Nat) (members : List (String × Json)) :
    fields? names least false (.object members) =
      some (names.map fun name => (object members).member? name) := by
  simp [fields?, member?, map_find?_name]

/-- A record of two fields is an object with both members or an array of two items. -/
theorem fields?_pair_eq_some {j first second : Json} {one other : String} :
    j.fields? [one, other] 2 false = some [some first, some second] ↔
      (j.member? one = some first ∧ j.member? other = some second)
        ∨ j = .array [first, second] := by
  cases j with
  | object members => simp [fields?_object]
  | array items =>
      rcases items with - | ⟨x, - | ⟨y, - | ⟨z, items⟩⟩⟩ <;> simp [fields?, member?]
  | _ => simp [fields?, member?]

theorem bool?_eq_some {j : Json} {b : Bool} : j.bool? = some b ↔ j = .bool b := by
  cases j <;> simp [bool?]

end Json

/-! ## Payloads -/

namespace Payload

variable {j : Json} {ok : Bool} {entries : List TokenEntry} {body : ErrorBody}

theorem tokensOfRecord?_ne_error : tokensOfRecord? j ≠ some (.error ok body) := by
  intro h
  unfold tokensOfRecord? at h
  split at h
  · obtain ⟨_, -, h⟩ := Option.bind_eq_some_iff.mp h
    obtain ⟨_, -, h⟩ := Option.bind_eq_some_iff.mp h
    obtain ⟨_, -, h⟩ := Option.bind_eq_some_iff.mp h
    cases h
  · cases h

theorem tokensOfRecord?_flag (h : tokensOfRecord? j = some (.tokens ok entries)) :
    ∃ items, j.fields? ["ok", "tokens"] 2 false = some [some (.bool ok), some items] := by
  unfold tokensOfRecord? at h
  split at h
  · next flag items hfields =>
    obtain ⟨flag', hflag, h⟩ := Option.bind_eq_some_iff.mp h
    obtain ⟨_, -, h⟩ := Option.bind_eq_some_iff.mp h
    obtain ⟨_, -, h⟩ := Option.bind_eq_some_iff.mp h
    cases h
    rw [Json.bool?_eq_some.mp hflag] at hfields
    exact ⟨items, hfields⟩
  · cases h

theorem errorOfRecord?_ne_tokens : errorOfRecord? j ≠ some (.tokens ok entries) := by
  intro h
  unfold errorOfRecord? at h
  split at h
  · obtain ⟨_, -, h⟩ := Option.bind_eq_some_iff.mp h
    obtain ⟨_, -, h⟩ := Option.bind_eq_some_iff.mp h
    cases h
  · cases h

theorem errorOfRecord?_eq_some :
    errorOfRecord? j = some (.error ok body) ↔ ∃ item,
      j.fields? ["ok", "error"] 2 false = some [some (.bool ok), some item]
        ∧ ErrorBody.ofRecord? item = some body := by
  constructor
  · intro h
    unfold errorOfRecord? at h
    split at h
    · next flag item hfields =>
      obtain ⟨flag', hflag, h⟩ := Option.bind_eq_some_iff.mp h
      obtain ⟨body', hbody, h⟩ := Option.bind_eq_some_iff.mp h
      cases h
      rw [Json.bool?_eq_some.mp hflag] at hfields
      exact ⟨item, hfields, hbody⟩
    · cases h
  · rintro ⟨item, hfields, hbody⟩
    simp [errorOfRecord?, hfields, hbody, Json.bool?]

/-- Tokens are read only from an object whose flag says so. -/
theorem flag_of_tokens (h : ofRecord? j = some (.tokens ok entries)) : ok = true := by
  unfold ofRecord? at h
  split at h
  · next hmember =>
    obtain ⟨items, hfields⟩ := tokensOfRecord?_flag h
    rcases Json.fields?_pair_eq_some.mp hfields with ⟨hok, -⟩ | rfl
    · rw [hmember] at hok
      cases hok
      rfl
    · cases hmember
  · exact absurd h errorOfRecord?_ne_tokens

/-- An error whose flag says otherwise is read from an array only. -/
theorem ofRecord?_flagged_error :
    ofRecord? j = some (.error true body) ↔
      ∃ item, j = .array [.bool true, item] ∧ ErrorBody.ofRecord? item = some body := by
  constructor
  · intro h
    unfold ofRecord? at h
    split at h
    · exact absurd h tokensOfRecord?_ne_error
    · next hmember =>
      obtain ⟨item, hfields, hbody⟩ := errorOfRecord?_eq_some.mp h
      rcases Json.fields?_pair_eq_some.mp hfields with ⟨hok, -⟩ | rfl
      · exact absurd hok hmember
      · exact ⟨item, rfl, hbody⟩
  · rintro ⟨item, rfl, hbody⟩
    exact errorOfRecord?_eq_some.mpr
      ⟨item, Json.fields?_pair_eq_some.mpr (.inr rfl), hbody⟩

/-- Tokens that were read carry a flag that says so. An error that was read carries one that denies
it, unless the text is an array: an array of the flag *true* and an error is read as that error. -/
theorem parsed_flag (text : String) :
    (∀ ok entries, parse? text = some (.tokens ok entries) → ok = true)
    ∧ ∀ body, parse? text = some (.error true body) ↔
        ∃ item, Json.parse? text = some (.array [.bool true, item])
          ∧ ErrorBody.ofRecord? item = some body := by
  constructor
  · intro ok entries h
    obtain ⟨j, -, hrecord⟩ := Option.bind_eq_some_iff.mp h
    exact flag_of_tokens hrecord
  · intro body
    constructor
    · intro h
      obtain ⟨j, hj, hrecord⟩ := Option.bind_eq_some_iff.mp h
      obtain ⟨item, rfl, hbody⟩ := ofRecord?_flagged_error.mp hrecord
      exact ⟨item, hj, hbody⟩
    · rintro ⟨item, hitem, hbody⟩
      exact Option.bind_eq_some_iff.mpr ⟨_, hitem, ofRecord?_flagged_error.mpr ⟨item, rfl, hbody⟩⟩

/-- Tokens in an object that repeats its flag, of which the last holds, and an error in an array. -/
theorem parsed_flag_repeated :
    let repeated := "\x7b\"ok\":false,\"tokens\":[[\"L_INT\",\"1\"]],\"ok\":true\x7d"
    let listed := "[true,[\"m\",1,2]]"
    (∃ ok, parse? repeated = some (.tokens ok [⟨"L_INT", "1"⟩]) ∧ ok = true)
    ∧ parse? listed = some (.error true ⟨"m", 1, 2⟩)
    ∧ ∃ item, Json.parse? listed = some (.array [.bool true, item])
        ∧ ErrorBody.ofRecord? item = some ⟨"m", 1, 2⟩ := by
  intro repeated listed
  have hrepeated : parse? repeated = some (.tokens true [⟨"L_INT", "1"⟩]) := by decide +kernel
  have hlisted : parse? listed = some (.error true ⟨"m", 1, 2⟩) := by decide +kernel
  exact ⟨⟨true, hrepeated, (parsed_flag repeated).1 _ _ hrepeated⟩, hlisted,
    ((parsed_flag listed).2 _).mp hlisted⟩

/-- The flag of an error that is given as an array can claim that there are tokens. -/
theorem parsed_flag_listed :
    ¬ ∀ text, (∀ ok entries, parse? text = some (.tokens ok entries) → ok = true)
        ∧ ∀ ok body, parse? text = some (.error ok body) → ok = false := by
  intro hagrees
  have hlisted : parse? "[true,[\"m\",1,2]]" = some (.error true ⟨"m", 1, 2⟩) := by decide +kernel
  have hflag : true = false := (hagrees _).2 _ _ hlisted
  cases hflag

end Payload

end ContractLex

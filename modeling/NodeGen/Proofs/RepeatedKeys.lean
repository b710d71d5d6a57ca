/-
  NodeGen.Proofs.RepeatedKeys — a key that comes twice is the first thing that a JSON text is refused for.

  A text that denotes a value, with no integer that is too long, is refused for a repeated key exactly if an
  object at any depth of the value has one (`load_refuses_repetition`). Objects are judged where they close, the
  inner ones before those around them (`objects_object`); the key is the first that is found again in the first
  object with such a key (`RepeatsFirst`). Only a value without a repeated key is judged by its shape, and then
  the first member that is no array of strings is the one that is named (`Shaped`).
-/

import NodeGen.Proofs.GrammarFile

namespace NodeGen

namespace Json

variable {v u : Json} {ms : List (Letters × Json)} {rules : Rules} {key : Letters}

/-! ## Objects -/

theorem objects_array (vs : List Json) : (Json.array vs).objects = vs.flatMap objects := by
  rw [objects, events_array, List.filterMap_flatMap]
  rfl

/-- An object closes behind the objects in its members. -/
theorem objects_object (ms : List (Letters × Json)) :
    (Json.object ms).objects = ms.flatMap (fun m => m.2.objects) ++ [ms] := by
  rw [objects, events_object, List.filterMap_append, List.filterMap_flatMap]
  rfl

/-- Induction over a value: what holds of all items of an array holds of the array, and so for the values of an
    object's members. -/
theorem induct {motive : Json → Prop} (null : motive .null) (bool : ∀ b, motive (.bool b))
    (number : ∀ literal, motive (.number literal)) (string : ∀ s, motive (.string s))
    (array : ∀ vs, (∀ v ∈ vs, motive v) → motive (.array vs))
    (object : ∀ ms, (∀ m ∈ ms, motive m.2) → motive (.object ms)) : ∀ v, motive v
  | .null => null
  | .bool b => bool b
  | .number literal => number literal
  | .string s => string s
  | .array vs => array vs fun v hv =>
    have : sizeOf v < sizeOf vs := List.sizeOf_lt_of_mem hv
    induct null bool number string array object v
  | .object ms => object ms fun m hm =>
    have : sizeOf m.2 < sizeOf ms := Nat.lt_trans (by cases m; simp only [Prod.mk.sizeOf_spec]; omega) (List.sizeOf_lt_of_mem hm)
    induct null bool number string array object m.2

inductive Part (u : Json) : Json → Prop
  | whole : Part u u
  | item {v : Json} {vs : List Json} : v ∈ vs → Part u v → Part u (.array vs)
  | member {m : Letters × Json} {ms : List (Letters × Json)} : m ∈ ms → Part u m.2 → Part u (.object ms)

theorem mem_objects_of_part (h : Part (.object ms) v) : ms ∈ v.objects := by
  induction h with
  | whole =>
    rw [objects_object]
    exact List.mem_append_right _ List.mem_cons_self
  | item hv _ ih =>
    rw [objects_array]
    exact List.mem_flatMap.mpr ⟨_, hv, ih⟩
  | member hm _ ih =>
    rw [objects_object]
    exact List.mem_append_left _ (List.mem_flatMap.mpr ⟨_, hm, ih⟩)

theorem part_of_mem_objects (h : ms ∈ v.objects) : Part (.object ms) v := by
  induction v using induct with
  | null => cases h
  | bool => cases h
  | number => cases h
  | string => cases h
  | array vs ih =>
    rw [objects_array] at h
    obtain ⟨v, hv, h⟩ := List.mem_flatMap.mp h
    exact .item hv (ih v hv h)
  | object members ih =>
    rw [objects_object] at h
    rcases List.mem_append.mp h with h | h
    · obtain ⟨m, hm, h⟩ := List.mem_flatMap.mp h
      exact .member hm (ih m hm h)
    · obtain rfl := List.mem_singleton.mp h
      exact .whole

/-- All objects of a value, and nothing else, close somewhere in it. -/
theorem mem_objects_iff : ms ∈ v.objects ↔ Part (.object ms) v := ⟨part_of_mem_objects, mem_objects_of_part⟩

/-! ## The key that is found again -/

/-- In the order in which keys are read, the first that is among those before it. -/
theorem repeatedKey_eq_some_iff {seen : List Letters} : repeatedKey seen ms = some key ↔
    ∃ keys rest, ms.map Prod.fst = keys ++ key :: rest ∧ Text.Fresh seen keys ∧ (key ∈ seen ∨ key ∈ keys) := by
  induction ms generalizing seen with
  | nil =>
    constructor
    · intro h
      cases h
    · rintro ⟨keys, rest, h, -⟩
      exact absurd h (by simp)
  | cons m ms ih =>
    obtain ⟨first, value⟩ := m
    by_cases hseen : first ∈ seen
    · rw [repeatedKey, if_pos hseen]
      constructor
      · rintro ⟨⟩
        exact ⟨[], ms.map Prod.fst, rfl, Text.fresh_nil seen, Or.inl hseen⟩
      · rintro ⟨keys, rest, hsplit, hfresh, -⟩
        cases keys with
        | nil => exact congrArg some (List.cons.inj hsplit).1
        | cons k keys =>
          obtain rfl : first = k := (List.cons.inj hsplit).1
          exact absurd hseen (Text.fresh_cons.mp hfresh).1
    · rw [repeatedKey, if_neg hseen, ih]
      constructor
      · rintro ⟨keys, rest, hsplit, hfresh, hkey⟩
        refine ⟨first :: keys, rest, congrArg (first :: ·) hsplit, Text.fresh_cons.mpr ⟨hseen, hfresh⟩, ?_⟩
        rcases hkey with hkey | hkey
        · rcases List.mem_cons.mp hkey with rfl | hkey
          · exact Or.inr List.mem_cons_self
          · exact Or.inl hkey
        · exact Or.inr (List.mem_cons_of_mem _ hkey)
      · rintro ⟨keys, rest, hsplit, hfresh, hkey⟩
        cases keys with
        | nil =>
          have hfirst : first = key := (List.cons.inj hsplit).1
          exact absurd (hkey.resolve_right List.not_mem_nil) (hfirst ▸ hseen)
        | cons k keys =>
          obtain rfl : first = k := (List.cons.inj hsplit).1
          refine ⟨keys, rest, (List.cons.inj hsplit).2, (Text.fresh_cons.mp hfresh).2, ?_⟩
          rcases hkey with hkey | hkey
          · exact Or.inl (List.mem_cons_of_mem _ hkey)
          · rcases List.mem_cons.mp hkey with rfl | hkey
            · exact Or.inl List.mem_cons_self
            · exact Or.inr hkey

/-- The key that a value is refused for: of the objects with a key that comes twice, in the first one to close,
    the key that is the first to come a second time. -/
def RepeatsFirst (v : Json) (key : Letters) : Prop :=
  ∃ before ms after keys rest, v.objects = before ++ ms :: after ∧ (∀ o ∈ before, (o.map Prod.fst).Nodup) ∧
    ms.map Prod.fst = keys ++ key :: rest ∧ keys.Nodup ∧ key ∈ keys

theorem repeatedKey_nil_eq_none_iff : repeatedKey [] ms = none ↔ (ms.map Prod.fst).Nodup :=
  ⟨fun h => (repeatedKey_eq_none h).1, fun h => repeatedKey_of_fresh ⟨h, by simp⟩⟩

theorem repeated_iff_part : (∃ key, v.objects.findSome? (repeatedKey []) = some key) ↔
    ∃ ms, Part (.object ms) v ∧ ¬ (ms.map Prod.fst).Nodup := by
  rw [← Option.isSome_iff_exists, List.findSome?_isSome_iff]
  refine exists_congr fun ms => and_congr mem_objects_iff ?_
  rw [← repeatedKey_nil_eq_none_iff]
  exact Option.isSome_iff_ne_none

theorem repeatsFirst_iff : v.RepeatsFirst key ↔ v.objects.findSome? (repeatedKey []) = some key := by
  rw [List.findSome?_eq_some_iff]
  constructor
  · rintro ⟨before, ms, after, keys, rest, hobjects, hbefore, hkeys, hnodup, hmem⟩
    refine ⟨before, ms, after, hobjects, ?_, fun o ho => repeatedKey_nil_eq_none_iff.mpr (hbefore o ho)⟩
    exact repeatedKey_eq_some_iff.mpr ⟨keys, rest, hkeys, ⟨hnodup, by simp⟩, Or.inr hmem⟩
  · rintro ⟨before, ms, after, hobjects, hkey, hbefore⟩
    obtain ⟨keys, rest, hkeys, hfresh, hmem⟩ := repeatedKey_eq_some_iff.mp hkey
    exact ⟨before, ms, after, keys, rest, hobjects, fun o ho => repeatedKey_nil_eq_none_iff.mp (hbefore o ho),
      hkeys, hfresh.1, hmem.resolve_left List.not_mem_nil⟩

/-- Rules that ask for distinct keys find no other fault in a value with no number too long. -/
theorem fault?_eq_repeatedKey (hdistinct : rules.distinctKeys = true)
    (hnumbers : ∀ literal ∈ v.numbers, rules.fault (.number literal) = none) :
    v.fault? rules = (v.objects.findSome? (repeatedKey [])).map .repeatedKey := by
  unfold numbers at hnumbers
  unfold fault? objects
  generalize v.events = events at hnumbers ⊢
  induction events with
  | nil => rfl
  | cons event events ih =>
    cases event with
    | number literal =>
      rw [List.findSome?_cons, hnumbers literal List.mem_cons_self]
      exact ih fun other hother => hnumbers other (List.mem_cons_of_mem _ hother)
    | close ms =>
      have hfirst : rules.fault (.close ms) = (repeatedKey [] ms).map .repeatedKey := if_pos hdistinct
      have hrest : events.findSome? rules.fault =
          ((events.filterMap Event.close?).findSome? (repeatedKey [])).map .repeatedKey := ih hnumbers
      have hcons : (Event.close ms :: events).filterMap Event.close? = ms :: events.filterMap Event.close? := rfl
      rw [List.findSome?_cons, hfirst, hrest, hcons, List.findSome?_cons]
      cases repeatedKey [] ms <;> rfl

end Json

namespace Grammar

variable {p : Path} {t : Text} {v : Json}

/-! ## The shape of a grammar -/

def IsTable (value : Json) : Prop := ∃ lines : List Json.Letters, value = .array (lines.map .string)

/-- `base` is the key of the first member that is no array of strings. -/
def FirstMisfit (ms : List (Json.Letters × Json)) (base : Json.Letters) : Prop :=
  ∃ before value after, ms = before ++ (base, value) :: after ∧ (∀ m ∈ before, IsTable m.2) ∧ ¬ IsTable value

theorem strings?_eq_none_iff {value : Json} : value.strings? = none ↔ ¬ IsTable value := by
  constructor
  · rintro h ⟨lines, hlines⟩
    rw [Json.strings?_eq_some_iff.mpr hlines] at h
    cases h
  · intro h
    refine Option.eq_none_iff_forall_ne_some.mpr fun lines hlines => ?_
    exact h ⟨lines, Json.strings?_eq_some_iff.mp hlines⟩

theorem tables_eq_error_iff {ms : List (Json.Letters × Json)} {flaw : Flaw} :
    tables ms = .error flaw ↔ ∃ base, flaw = .notLines base ∧ FirstMisfit ms base := by
  induction ms with
  | nil =>
    constructor
    · intro h
      cases h
    · rintro ⟨base, -, before, value, after, h, -⟩
      exact absurd h (by simp)
  | cons m ms ih =>
    obtain ⟨base, value⟩ := m
    cases hvalue : value.strings? with
    | none =>
      have hmisfit : FirstMisfit ((base, value) :: ms) base :=
        ⟨[], value, ms, rfl, by simp, strings?_eq_none_iff.mp hvalue⟩
      simp only [tables, hvalue]
      constructor
      · rintro ⟨⟩
        exact ⟨base, rfl, hmisfit⟩
      · rintro ⟨other, rfl, before, misfit, after, hsplit, hbefore, -⟩
        cases before with
        | nil => rw [(Prod.mk.inj (List.cons.inj hsplit).1).1]
        | cons m before =>
          obtain rfl : (base, value) = m := (List.cons.inj hsplit).1
          exact absurd (hbefore _ List.mem_cons_self) (strings?_eq_none_iff.mp hvalue)
    | some lines =>
      have htable : IsTable value := ⟨lines, Json.strings?_eq_some_iff.mp hvalue⟩
      have hrest : tables ((base, value) :: ms) = .error flaw ↔ tables ms = .error flaw := by
        simp only [tables, hvalue]
        cases tables ms <;> simp [Functor.map, Except.map]
      rw [hrest, ih]
      constructor
      · rintro ⟨other, hflaw, before, misfit, after, rfl, hbefore, hmisfit⟩
        refine ⟨other, hflaw, (base, value) :: before, misfit, after, rfl, ?_, hmisfit⟩
        exact List.forall_mem_cons.mpr ⟨htable, hbefore⟩
      · rintro ⟨other, hflaw, before, misfit, after, hsplit, hbefore, hmisfit⟩
        cases before with
        | nil =>
          obtain rfl : value = misfit := (Prod.mk.inj (List.cons.inj hsplit).1).2
          exact absurd htable hmisfit
        | cons m before =>
          exact ⟨other, hflaw, before, misfit, after, (List.cons.inj hsplit).2,
            (List.forall_mem_cons.mp hbefore).2, hmisfit⟩

structure Shaped (p : Path) (v : Json) (outcome : Except LoadError Grammar) : Prop where
  /-- An object of tables is a grammar, unless it is empty. -/
  grammar : ∀ g, outcome = .ok g ↔ v = .object g.members ∧ g ≠ []
  noObject : outcome = .error (.flawed p .notAnObject) ↔ ∀ m ms, v ≠ .object (m :: ms)
  misfit : ∀ base, outcome = .error (.flawed p (.notLines base)) ↔ ∃ ms, v = .object ms ∧ FirstMisfit ms base

theorem FirstMisfit.ne_nil {ms : List (Json.Letters × Json)} {base : Json.Letters} (h : FirstMisfit ms base) : ms ≠ [] := by
  obtain ⟨before, value, after, rfl, -⟩ := h
  simp

/-- What a value is refused for. -/
theorem ofJson_error_cases {flaw : Flaw} (h : ofJson v = .error flaw) :
    (flaw = .notAnObject ∧ ∀ m ms, v ≠ .object (m :: ms)) ∨ flaw = .notTexts ∨
      ∃ base ms, flaw = .notLines base ∧ v = .object ms ∧ FirstMisfit ms base := by
  unfold ofJson at h
  split at h
  · rename_i m ms
    cases hts : tables (m :: ms) with
    | error flaw' =>
      rw [hts] at h
      cases h
      obtain ⟨base, rfl, hmisfit⟩ := tables_eq_error_iff.mp hts
      exact Or.inr (Or.inr ⟨base, _, rfl, rfl, hmisfit⟩)
    | ok ts =>
      simp only [hts, bind, Except.bind] at h
      split at h <;> cases h
      exact Or.inr (Or.inl rfl)
  · rename_i hshape
    cases h
    exact Or.inl ⟨rfl, hshape⟩

theorem ofJson_eq_notAnObject_iff : ofJson v = .error .notAnObject ↔ ∀ m ms, v ≠ .object (m :: ms) := by
  constructor
  · intro h
    rcases ofJson_error_cases h with ⟨-, hshape⟩ | hflaw | ⟨base, ms, hflaw, -⟩
    · exact hshape
    · cases hflaw
    · cases hflaw
  · intro h
    unfold ofJson
    split
    · exact absurd rfl (h _ _)
    · rfl

theorem ofJson_eq_notLines_iff {base : Json.Letters} :
    ofJson v = .error (.notLines base) ↔ ∃ ms, v = .object ms ∧ FirstMisfit ms base := by
  constructor
  · intro h
    rcases ofJson_error_cases h with ⟨hflaw, -⟩ | hflaw | ⟨other, ms, hflaw, hv, hmisfit⟩
    · cases hflaw
    · cases hflaw
    · cases hflaw
      exact ⟨ms, hv, hmisfit⟩
  · rintro ⟨ms, rfl, hmisfit⟩
    obtain ⟨m, ms, rfl⟩ := List.exists_cons_of_ne_nil hmisfit.ne_nil
    simp only [ofJson, tables_eq_error_iff.mpr ⟨base, rfl, hmisfit⟩]
    rfl

def judged (p : Path) (v : Json) : Except LoadError Grammar :=
  ((ofJson v).mapError Failure.flawed).mapError (Failure.told p)

theorem judged_eq_ok_iff {g : Grammar} : judged p v = .ok g ↔ ofJson v = .ok g := by
  unfold judged
  cases ofJson v with
  | error flaw => exact ⟨fun h => (by cases h), fun h => (by cases h)⟩
  | ok g' => exact ⟨fun h => congrArg Except.ok (Except.ok.inj h), fun h => congrArg Except.ok (Except.ok.inj h)⟩

theorem judged_eq_error_iff {flaw : Flaw} : judged p v = .error (.flawed p flaw) ↔ ofJson v = .error flaw := by
  unfold judged
  cases ofJson v with
  | ok g => exact ⟨fun h => (by cases h), fun h => (by cases h)⟩
  | error flaw' =>
    constructor
    · intro h
      exact congrArg Except.error (LoadError.flawed.inj (Except.error.inj h)).2
    · rintro ⟨⟩
      rfl

theorem shaped_judged (p : Path) (v : Json) : Shaped p v (judged p v) where
  grammar _ := judged_eq_ok_iff.trans ofJson_eq_ok_iff
  noObject := judged_eq_error_iff.trans ofJson_eq_notAnObject_iff
  misfit _ := judged_eq_error_iff.trans ofJson_eq_notLines_iff

/-! ## Loading -/

theorem fault_number_eq_none {literal : Text} (h : ∀ n ∈ Json.integerDigits literal, n ≤ maxDigits) :
    rules.fault (.number literal) = none := by
  cases hdigits : Json.integerDigits literal with
  | none => simp only [Json.Rules.fault, hdigits]
  | some n =>
    have hle : n ≤ maxDigits := h n hdigits
    simp only [Json.Rules.fault, hdigits, rules, Option.any_some, decide_eq_true_eq, if_neg (Nat.not_lt.mpr hle)]

/-- A repeated key is looked for first. -/
theorem load_of_document {w : World} (hread : w.read (Route.ofPath p) = .ok (Text.Utf8.encode t))
    (hdocument : Json.Document t v)
    (hdigits : ∀ literal ∈ v.numbers, ∀ n ∈ Json.integerDigits literal, n ≤ maxDigits) :
    ((load p).run w).1 =
      match v.objects.findSome? (Json.repeatedKey []) with
      | some key => .error (.flawed p (.repeatedBase key))
      | none => judged p v := by
  have hfault := Json.fault?_eq_repeatedKey (show rules.distinctKeys = true from rfl) fun literal h =>
    fault_number_eq_none (hdigits literal h)
  rw [load_of_read hread]
  simp only [ofBytes, Text.Utf8.decode_encode, ofText, Json.read_of_document rules hdocument, hfault]
  cases v.objects.findSome? (Json.repeatedKey []) <;> rfl

theorem ofJson_ne_repeatedBase {key : Json.Letters} : ofJson v ≠ .error (.repeatedBase key) := by
  intro h
  rcases ofJson_error_cases h with ⟨hflaw, -⟩ | hflaw | ⟨base, ms, hflaw, -⟩ <;> cases hflaw

/-- A text that denotes a value is refused for a repeated key exactly if some object in the value, however deep,
    has one; the key is the one that is the first to come again in the first such object to close. Where no object
    repeats a key, the value is judged by its shape. -/
theorem load_refuses_repetition {w : World} (hread : w.read (Route.ofPath p) = .ok (Text.Utf8.encode t))
    (hdocument : Json.Document t v)
    (hdigits : ∀ literal ∈ v.numbers, ∀ n ∈ Json.integerDigits literal, n ≤ maxDigits) :
    ((∃ key, ((load p).run w).1 = .error (.flawed p (.repeatedBase key))) ↔
      ∃ ms, Json.Part (.object ms) v ∧ ¬ (ms.map Prod.fst).Nodup) ∧
    (∀ key, ((load p).run w).1 = .error (.flawed p (.repeatedBase key)) ↔ v.RepeatsFirst key) ∧
    ((∀ ms, Json.Part (.object ms) v → (ms.map Prod.fst).Nodup) → Shaped p v ((load p).run w).1) := by
  have hload := load_of_document hread hdocument hdigits
  have hkey : ∀ key, ((load p).run w).1 = .error (.flawed p (.repeatedBase key)) ↔ v.RepeatsFirst key := by
    intro key
    rw [hload, Json.repeatsFirst_iff]
    cases v.objects.findSome? (Json.repeatedKey []) with
    | some found => simp
    | none => simp [judged_eq_error_iff, ofJson_ne_repeatedBase]
  refine ⟨?_, hkey, fun hnodup => ?_⟩
  · simp only [hkey, Json.repeatsFirst_iff]
    exact Json.repeated_iff_part
  · have hnone : v.objects.findSome? (Json.repeatedKey []) = none := by
      refine Option.eq_none_iff_forall_ne_some.mpr fun key hsome => ?_
      obtain ⟨ms, hpart, hrepeats⟩ := Json.repeated_iff_part.mp ⟨key, hsome⟩
      exact hrepeats (hnodup ms hpart)
    rw [hload, hnone]
    exact shaped_judged p v

/-- Both objects of the text repeat a key: the outer one `A`, the inner one a surrogate outside of a pair, in two
    spellings, after another such surrogate. -/
def nestedText : Text :=
  "\x7b\"A\":[\x7b\"\\uD801\":1,\"\\uD800\":[],\"\\ud800\":2\x7d],\"A\":[]\x7d".toList

def nestedKey : Json.Letters := [.lone ⟨0xD800, by decide⟩]

theorem document_nested :
    ∃ v, Json.Document nestedText v ∧ v.RepeatsFirst nestedKey ∧ v.numbers = [['1'], ['2']] := by
  have h : ((Json.read ⟨none, false⟩ nestedText).toOption.map fun v =>
      (v.objects.findSome? (Json.repeatedKey []), v.numbers)) = some (some nestedKey, [['1'], ['2']]) := by
    decide +kernel
  cases hv : Json.read ⟨none, false⟩ nestedText with
  | error e =>
    rw [hv] at h
    cases h
  | ok v =>
    rw [hv] at h
    obtain ⟨hfirst, hnumbers⟩ := Prod.mk.inj (Option.some.inj h)
    exact ⟨v, Json.read_sound hv, Json.repeatsFirst_iff.mpr hfirst, hnumbers⟩

theorem load_refuses_repetition_nested :
    ((load (Path.ofText "g".toList)).run (withFile nestedText)).1 =
      .error (.flawed (Path.ofText "g".toList) (.repeatedBase nestedKey)) := by
  have hread : (withFile nestedText).read (Route.ofPath (Path.ofText "g".toList)) =
      .ok (Text.Utf8.encode nestedText) := rfl
  obtain ⟨v, hdocument, hfirst, hnumbers⟩ := document_nested
  have hdigits : ∀ literal ∈ v.numbers, ∀ n ∈ Json.integerDigits literal, n ≤ maxDigits := by
    rw [hnumbers]
    decide
  exact ((load_refuses_repetition hread hdocument hdigits).2.1 _).mpr hfirst

end Grammar

end NodeGen

import GatewayPoc.Common.Instrument
import GatewayPoc.GwFront.UniversalHandler
import Mathlib.Data.List.Nodup

/-!
# Checking JSON payloads

`gwfront/src/handler/json_checker.cpp`: `JsonChecker` parses a payload and looks for the fields of
an instrument.  The parser, `nlohmann::json::parse`, is a parameter: it gives a value, or `none` if
the text is not JSON.

* `Json` : the values of `nlohmann::json`, which keeps apart signed and unsigned integers.
* `JsonChecker.check` : the checker.
* **`JsonChecker.check_ok_iff`** : a payload is accepted exactly if it parses to an object with all
  the fields, each of its kind.
* `JsonChecker.Field` : a field with what its check asks of it; the three loops are one walk.
* **`JsonChecker.accepts_exactly`** : what is accepted, and what is said of the first field that
  fails.
-/

namespace GatewayPoc

/-- `nlohmann::json`, as its parser makes it: a literal that is an integer is unsigned if it is not
negative and signed if it is, and a literal that fits neither is a float. -/
inductive Json where
  | null
  | boolean (b : Bool)
  | integer (n : Int64)
  | unsigned (n : UInt64)
  | float (d : FiniteDouble)
  | string (s : Bytes)
  | array (items : List Json)
  | object (members : List (Bytes × Json))

namespace Json

/-- `json.find(field)`; a value that is not an object has no members. -/
def find (json : Json) (field : Bytes) : Option Json :=
  match json with
  | object members => (members.find? fun m => m.1 = field).map Prod.snd
  | _ => none

/-- `is_number_integer`. -/
def isNumberInteger : Json → Bool
  | integer _ => true
  | unsigned _ => true
  | _ => false

/-- `is_number_float`. -/
def isNumberFloat : Json → Bool
  | float _ => true
  | _ => false

/-- `is_string`. -/
def isString : Json → Bool
  | string _ => true
  | _ => false

/-- The integer that a value is. -/
def integer? : Json → Option ℤ
  | integer n => some n.toInt
  | unsigned n => some n.toNat
  | _ => none

/-- The number that a value is, in the units of `FiniteDouble.scaled`. -/
def number? : Json → Option ℤ
  | integer n => some (n.toInt * FiniteDouble.unit)
  | unsigned n => some (n.toNat * FiniteDouble.unit)
  | float d => some d.scaled
  | _ => none

/-- The string that a value is. -/
def string? : Json → Option Bytes
  | string s => some s
  | _ => none

variable {json : Json}

/-- An integer has 64 bits, with or without a sign. -/
theorem isNumberInteger_iff :
    json.isNumberInteger = true ↔ ∃ n, json.integer? = some n ∧ -2 ^ 63 ≤ n ∧ n < 2 ^ 64 := by
  cases json with
  | integer n =>
    have hle : -2 ^ 63 ≤ n.toInt := n.le_toInt
    have hlt : n.toInt < 2 ^ 63 := n.toInt_lt
    exact ⟨fun _ => ⟨n.toInt, rfl, hle, by omega⟩, fun _ => rfl⟩
  | unsigned n =>
    have hlt : n.toNat < 2 ^ 64 := n.toNat_lt
    exact ⟨fun _ => ⟨n.toNat, rfl, by omega, by omega⟩, fun _ => rfl⟩
  | _ => simp [isNumberInteger, integer?]

theorem isNumber_iff :
    (json.isNumberFloat || json.isNumberInteger) = true ↔ ∃ q, json.number? = some q := by
  cases json <;> simp [isNumberFloat, isNumberInteger, number?]

theorem isString_iff : json.isString = true ↔ ∃ s, json.string? = some s := by
  cases json <;> simp [isString, string?]

/-- Names being unique, a member is found wherever it stands. -/
theorem find_object_iff {members : List (Bytes × Json)} {field : Bytes}
    (h : (members.map Prod.fst).Nodup) :
    (object members).find field = some json ↔ (field, json) ∈ members := by
  simp only [find, Option.map_eq_some_iff]
  constructor
  · rintro ⟨m, hfind, rfl⟩
    obtain rfl : m.1 = field := by simpa using List.find?_some hfind
    exact List.mem_of_find?_eq_some hfind
  · intro hmem
    cases hfind : members.find? fun m => m.1 = field with
    | none =>
      have hno := List.find?_eq_none.1 hfind _ hmem
      simp at hno
    | some m =>
      have hname : m.1 = field := by simpa using List.find?_some hfind
      have heq := List.inj_on_of_nodup_map h (List.mem_of_find?_eq_some hfind) hmem hname
      exact ⟨m, rfl, by rw [heq]⟩

/-- The value is an object with the fields of an instrument, each of its kind. -/
structure IsInstrument (json : Json) : Prop where
  ints : ∀ i < 6, ∃ j, json.find (intName i) = some j ∧ j.isNumberInteger = true
  doubles : ∀ i < 6, ∃ j, json.find (doubleName i) = some j ∧
    (j.isNumberFloat || j.isNumberInteger) = true
  strs : ∀ i < 32, ∃ j, json.find (strName i) = some j ∧ j.isString = true

/-- The value is an object with the fields of the instrument `v`, and their values. -/
structure Carries (json : Json) (v : Instrument) : Prop where
  ints : ∀ i : Fin 6, (json.find (intName i)).bind integer? = some (v.ints i).toInt
  doubles : ∀ i : Fin 6, (json.find (doubleName i)).bind number? = some (v.doubles i).scaled
  strs : ∀ i : Fin 32, (json.find (strName i)).bind string? = some (utf8 (v.strs i))

theorem Carries.isInstrument {v : Instrument} (h : json.Carries v) : json.IsInstrument where
  ints i hi := by
    obtain ⟨j, hj, hn⟩ := Option.bind_eq_some_iff.1 (h.ints ⟨i, hi⟩)
    refine ⟨j, hj, ?_⟩
    cases j <;> first | rfl | cases hn
  doubles i hi := by
    obtain ⟨j, hj, hq⟩ := Option.bind_eq_some_iff.1 (h.doubles ⟨i, hi⟩)
    exact ⟨j, hj, isNumber_iff.2 ⟨_, hq⟩⟩
  strs i hi := by
    obtain ⟨j, hj, hs⟩ := Option.bind_eq_some_iff.1 (h.strs ⟨i, hi⟩)
    exact ⟨j, hj, isString_iff.2 ⟨_, hs⟩⟩

end Json

namespace JsonChecker

/-- A check of one field: it is present, and of a kind that `isKind` recognises. -/
def checkField (isKind : Json → Bool) (complaint : Bytes) (json : Json) (field : Bytes) :
    Option CheckResult :=
  match json.find field with
  | none => some ⟨false, missingMessage field⟩
  | some j =>
    if isKind j = true then none
    else some ⟨false, ascii "field '" ++ field ++ ascii "' is not " ++ complaint⟩

/-- `checkIntegerField`. -/
def checkIntegerField : Json → Bytes → Option CheckResult :=
  checkField Json.isNumberInteger (ascii "an integer")

/-- `checkDoubleField`. -/
def checkDoubleField : Json → Bytes → Option CheckResult :=
  checkField (fun j => j.isNumberFloat || j.isNumberInteger) (ascii "a double")

/-- `checkStringField`. -/
def checkStringField : Json → Bytes → Option CheckResult :=
  checkField Json.isString (ascii "a string")

/-- `JsonChecker::check`. -/
def check (parse : Bytes → Option Json) (data : Bytes) : CheckResult :=
  match parse data with
  | none => ⟨false, ascii "data is not a valid json"⟩
  | some json =>
    match firstFailure 6 fun i => checkIntegerField json (intName i) with
    | some result => result
    | none =>
      match firstFailure 6 fun i => checkDoubleField json (doubleName i) with
      | some result => result
      | none =>
        match firstFailure 32 fun i => checkStringField json (strName i) with
        | some result => result
        | none => ⟨true, []⟩

variable {isKind : Json → Bool} {complaint field : Bytes} {json : Json}

theorem checkField_eq_none :
    checkField isKind complaint json field = none ↔
      ∃ j, json.find field = some j ∧ isKind j = true := by
  unfold checkField
  cases json.find field with
  | none => simp
  | some j => simp

theorem not_ok_of_checkField {result : CheckResult}
    (h : checkField isKind complaint json field = some result) : result.ok = false := by
  unfold checkField at h
  split at h
  · cases h
    rfl
  · split at h
    · cases h
    · cases h
      rfl

/-- What a loop over fields decides. -/
theorem not_ok_of_firstFailure {n : ℕ} {name : ℕ → Bytes} {result : CheckResult}
    (h : (firstFailure n fun i => checkField isKind complaint json (name i)) = some result) :
    result.ok = false := by
  obtain ⟨i, -, hi⟩ := exists_of_firstFailure h
  exact not_ok_of_checkField hi

/-- The three loops. -/
theorem isInstrument_iff :
    json.IsInstrument ↔
      (firstFailure 6 fun i => checkIntegerField json (intName i)) = none ∧
      (firstFailure 6 fun i => checkDoubleField json (doubleName i)) = none ∧
      (firstFailure 32 fun i => checkStringField json (strName i)) = none := by
  simp only [firstFailure_eq_none, checkIntegerField, checkDoubleField, checkStringField,
    checkField_eq_none]
  exact ⟨fun h => ⟨h.ints, h.doubles, h.strs⟩, fun ⟨hints, hdoubles, hstrs⟩ =>
    ⟨hints, hdoubles, hstrs⟩⟩

/-- **A payload is accepted exactly if it is an object with all the fields, each of its kind.** -/
theorem check_ok_iff {parse : Bytes → Option Json} {data : Bytes} :
    (check parse data).ok = true ↔ ∃ json, parse data = some json ∧ json.IsInstrument := by
  unfold check
  cases parse data with
  | none => simp
  | some json =>
    simp only [Option.some.injEq, exists_eq_left', isInstrument_iff]
    cases hints : firstFailure 6 fun i => checkIntegerField json (intName i) with
    | some result => simp [not_ok_of_firstFailure hints]
    | none =>
      cases hdoubles : firstFailure 6 fun i => checkDoubleField json (doubleName i) with
      | some result => simp [not_ok_of_firstFailure hdoubles]
      | none =>
        cases hstrs : firstFailure 32 fun i => checkStringField json (strName i) with
        | some result => simp [not_ok_of_firstFailure hstrs]
        | none => simp

/-! ### The first field that fails -/

/-- A field, with what its check asks of it. -/
structure Field where
  name : Bytes
  isKind : Json → Bool
  complaint : Bytes

/-- The field is present, and of its kind. -/
def Field.Fits (f : Field) (json : Json) : Prop :=
  ∃ j, json.find f.name = some j ∧ f.isKind j = true

/-- What is said about the field of a document that it does not fit. -/
def Field.message (f : Field) (json : Json) : Bytes :=
  match json.find f.name with
  | none => missingMessage f.name
  | some _ => ascii "field '" ++ f.name ++ ascii "' is not " ++ f.complaint

/-- The fields, in the order of the checks. -/
def fields : List Field :=
  (List.range 6).map (fun i => ⟨intName i, Json.isNumberInteger, ascii "an integer"⟩) ++
    (List.range 6).map (fun i =>
      ⟨doubleName i, fun j => j.isNumberFloat || j.isNumberInteger, ascii "a double"⟩) ++
    (List.range 32).map (fun i => ⟨strName i, Json.isString, ascii "a string"⟩)

/-- The check of a field. -/
def Field.check (f : Field) (json : Json) : Option CheckResult :=
  checkField f.isKind f.complaint json f.name

variable {parse : Bytes → Option Json} {data : Bytes} {f : Field} {result : CheckResult}

theorem Field.check_eq_none : f.check json = none ↔ f.Fits json := checkField_eq_none

theorem Field.check_eq_some (h : f.check json = some result) :
    ¬ f.Fits json ∧ result = ⟨false, f.message json⟩ := by
  have hno : ¬ f.Fits json := by
    rw [← Field.check_eq_none, h]
    exact Option.some_ne_none result
  refine ⟨hno, ?_⟩
  unfold Field.check checkField at h
  unfold Field.message
  cases hfind : json.find f.name with
  | none =>
    simp only [hfind, Option.some.injEq] at h
    exact h.symm
  | some j =>
    have hkind : ¬ f.isKind j = true := fun hkind => hno ⟨j, hfind, hkind⟩
    simp only [hfind, hkind, Bool.false_eq_true, if_false, Option.some.injEq] at h
    exact h.symm

/-- The three loops are one walk over the fields. -/
theorem check_of_parse (h : parse data = some json) :
    check parse data = ((fields.findSome? fun f => f.check json).getD ⟨true, []⟩) := by
  have hloops : (fields.findSome? fun f => f.check json) =
      ((firstFailure 6 fun i => checkIntegerField json (intName i)).or
        (firstFailure 6 fun i => checkDoubleField json (doubleName i))).or
        (firstFailure 32 fun i => checkStringField json (strName i)) := by
    simp only [fields, List.findSome?_append, List.findSome?_map]
    rfl
  rw [hloops]
  simp only [check, h]
  cases firstFailure 6 fun i => checkIntegerField json (intName i) with
  | some result => rfl
  | none =>
    cases firstFailure 6 fun i => checkDoubleField json (doubleName i) with
    | some result => rfl
    | none =>
      cases firstFailure 32 fun i => checkStringField json (strName i) with
      | some result => rfl
      | none => rfl

/-- A document that is not accepted has a first field that it does not fit. -/
theorem exists_first_misfit (h : parse data = some json) (hok : (check parse data).ok = false) :
    ∃ pre f post, fields = pre ++ f :: post ∧ (∀ g ∈ pre, g.Fits json) ∧ ¬ f.Fits json ∧
      check parse data = ⟨false, f.message json⟩ := by
  rw [check_of_parse h] at hok ⊢
  cases hfirst : fields.findSome? fun f => f.check json with
  | none =>
    rw [hfirst] at hok
    cases hok
  | some result =>
    obtain ⟨pre, f, post, hsplit, hcheck, hpre⟩ := List.findSome?_eq_some_iff.1 hfirst
    obtain ⟨hno, rfl⟩ := Field.check_eq_some hcheck
    exact ⟨pre, f, post, hsplit, fun g hg => Field.check_eq_none.1 (hpre g hg), hno, rfl⟩

/-- A value that is no object lacks the first field. -/
theorem check_of_not_object (h : parse data = some json) (hno : ∀ members, json ≠ .object members) :
    check parse data = ⟨false, missingMessage (intName 0)⟩ := by
  have hfind : ∀ field, json.find field = none := by
    intro field
    cases json with
    | object members => exact absurd rfl (hno members)
    | _ => rfl
  rw [check_of_parse h]
  have hfirst : (fields.findSome? fun f => f.check json) =
      some ⟨false, missingMessage (intName 0)⟩ := by
    have hhead : Field.check ⟨intName 0, Json.isNumberInteger, ascii "an integer"⟩ json =
        some ⟨false, missingMessage (intName 0)⟩ := by
      simp only [Field.check, checkField, hfind]
    have hcons : fields =
        ⟨intName 0, Json.isNumberInteger, ascii "an integer"⟩ :: fields.tail := rfl
    rw [hcons, List.findSome?_cons, hhead]
  rw [hfirst]
  rfl

/-- The result depends on what is found under the names of the fields, and on nothing else. -/
theorem check_congr {parse' : Bytes → Option Json} {data' : Bytes} {json' : Json}
    (h : parse data = some json) (h' : parse' data' = some json')
    (hfind : ∀ f ∈ fields, json.find f.name = json'.find f.name) :
    check parse data = check parse' data' := by
  have hcheck : ∀ f ∈ fields, f.check json = f.check json' := by
    intro f hf
    simp only [Field.check, checkField, hfind f hf]
  rw [check_of_parse h, check_of_parse h', ← List.head?_filterMap, ← List.head?_filterMap,
    List.filterMap_congr hcheck]

/-- **JSON payloads.**  A payload is accepted exactly if it parses to an object with all the fields,
each of its kind.  A payload that is rejected is not JSON, or has a first field that is missing or
not of its kind, and the message says so; for a value that is no object this is `int0`.  Of objects
with unique names only the members with the names of the fields matter, wherever they stand. -/
theorem accepts_exactly (parse : Bytes → Option Json) (data : Bytes) :
    ((check parse data).ok = true ↔ ∃ members, parse data = some (.object members) ∧
      (∀ i < 6, ∃ j, (Json.object members).find (intName i) = some j ∧
        j.isNumberInteger = true) ∧
      (∀ i < 6, ∃ j, (Json.object members).find (doubleName i) = some j ∧
        (j.isNumberFloat = true ∨ j.isNumberInteger = true)) ∧
      (∀ i < 32, ∃ j, (Json.object members).find (strName i) = some j ∧ j.isString = true)) ∧
    (parse data = none → check parse data = ⟨false, ascii "data is not a valid json"⟩) ∧
    (∀ json, parse data = some json → (check parse data).ok = false →
      ∃ pre f post, fields = pre ++ f :: post ∧ (∀ g ∈ pre, g.Fits json) ∧ ¬ f.Fits json ∧
        check parse data = ⟨false, f.message json⟩) ∧
    (∀ json, parse data = some json → (∀ members, json ≠ .object members) →
      check parse data = ⟨false, missingMessage (intName 0)⟩) ∧
    (∀ (parse' : Bytes → Option Json) (data' : Bytes) (members members' : List (Bytes × Json)),
      parse data = some (.object members) → parse' data' = some (.object members') →
      (members.map Prod.fst).Nodup → (members'.map Prod.fst).Nodup →
      (∀ f ∈ fields, ∀ j, (f.name, j) ∈ members ↔ (f.name, j) ∈ members') →
      check parse data = check parse' data') := by
  refine ⟨?_, ?_, fun json h hok => exists_first_misfit h hok,
    fun json h hno => check_of_not_object h hno, ?_⟩
  · rw [check_ok_iff]
    constructor
    · rintro ⟨json, hparse, hints, hdoubles, hstrs⟩
      cases json with
      | object members =>
        exact ⟨members, hparse, hints, by simpa only [Bool.or_eq_true] using hdoubles, hstrs⟩
      | _ =>
        obtain ⟨j, hj, -⟩ := hints 0 (by omega)
        cases hj
    · rintro ⟨members, hparse, hints, hdoubles, hstrs⟩
      exact ⟨.object members, hparse, hints, by simpa only [Bool.or_eq_true] using hdoubles, hstrs⟩
  · intro hparse
    simp only [check, hparse]
  · intro parse' data' members members' h h' hnodup hnodup' hsame
    refine check_congr h h' fun f hf => Option.ext fun j => ?_
    rw [Json.find_object_iff hnodup, Json.find_object_iff hnodup', hsame f hf]

end JsonChecker

end GatewayPoc

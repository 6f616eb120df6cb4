import Criteria.Json.Document
import Criteria.Proofs.Evaluation.Integers
import Criteria.Proofs.Number.Conversions

/-!
# Documents and values

* `Record.Ordered`: records as they are kept, in which collecting the fields again changes nothing
  (`Record.ofList_eq_self`);
* `Json.WellFormed`: documents as they are held, with numbers of 64 bits and every name of an object
  once;
* `JsonNumber.toJson_toValue`: what becomes of a number that is made a value and a document again;
* `Value.toJson_ofJson_iff`: a document comes back from its value just if its integers fit 64 bits with
  a sign, and the value comes back from any.
-/

namespace Criteria

/-! ### Records -/

namespace Record

variable {α β : Type}

/-- Whether the fields stand in the order of their names, each name once. -/
def Ordered (fields : Record α) : Prop := fields.Pairwise fun f g => compare f.1 g.1 = .lt

instance (fields : Record α) : Decidable (Ordered fields) :=
  inferInstanceAs (Decidable (fields.Pairwise fun f g => compare f.1 g.1 = .lt))

theorem ordered_map {f : α → β} {fields : Record α} :
    Ordered (fields.map fun field => (field.1, f field.2)) ↔ Ordered fields := List.pairwise_map

/-- A name behind all others is put at the end. -/
theorem insert_of_lt {name : String} {v : α} {fields : Record α}
    (h : ∀ f ∈ fields, compare f.1 name = .lt) :
    insert name v fields = fields ++ [(name, v)] := by
  induction fields with
  | nil => rfl
  | cons f fields ih =>
    obtain ⟨hf, hfields⟩ := List.forall_mem_cons.1 h
    rw [insert, Std.OrientedCmp.gt_iff_lt.2 hf, ih hfields, List.cons_append]

/-- **Fields that are in order stay as they are** when they are collected. -/
theorem ofList_eq_self {fields : Record α} (h : Ordered fields) : ofList fields = fields := by
  have hcollect (before : Record α) (hall : Ordered (before ++ fields)) :
      fields.foldl (fun done f => insert f.1 f.2 done) before = before ++ fields := by
    clear h
    induction fields generalizing before with
    | nil => simp
    | cons f fields ih =>
      have hlt := (List.pairwise_append.1 hall).2.2
      have hnext : before ++ [f] ++ fields = before ++ f :: fields := List.append_assoc ..
      rw [List.foldl_cons, insert_of_lt fun g hg => hlt g hg f List.mem_cons_self]
      exact (ih _ (hnext ▸ hall)).trans hnext
  exact hcollect [] h

end Record

/-! ### Documents -/

/-- Whether a number is one that documents hold: an integer of 64 bits, with a sign or without, or a
finite binary number. -/
def JsonNumber.WellFormed : JsonNumber → Prop
  | integer n => -2 ^ 63 ≤ n ∧ n < 2 ^ 64
  | float x => x.isFinite = true

instance : (n : JsonNumber) → Decidable n.WellFormed
  | .integer n => inferInstanceAs (Decidable (-2 ^ 63 ≤ n ∧ n < 2 ^ 64))
  | .float x => inferInstanceAs (Decidable (x.isFinite = true))

namespace Json

/-- Documents as they are held: every number is one of 64 bits, and every object has its members in the
order of their names. -/
inductive WellFormed : Json → Prop where
  | null : WellFormed .null
  | bool (b : Bool) : WellFormed (.bool b)
  | number {n : JsonNumber} (h : n.WellFormed) : WellFormed (.number n)
  | string (s : String) : WellFormed (.string s)
  | array {items : List Json} (h : ∀ j ∈ items, WellFormed j) : WellFormed (.array items)
  | object {members : Record Json} (hordered : Record.Ordered members)
      (h : ∀ m ∈ members, WellFormed m.2) : WellFormed (.object members)

mutual

/-- The numbers in a document. -/
def numbers : Json → List JsonNumber
  | .number n => [n]
  | .array items => numbersOfItems items
  | .object members => numbersOfMembers members
  | _ => []

/-- The numbers in the items of an array. -/
def numbersOfItems : List Json → List JsonNumber
  | [] => []
  | j :: rest => numbers j ++ numbersOfItems rest

/-- The numbers in the members of an object. -/
def numbersOfMembers : List (String × Json) → List JsonNumber
  | [] => []
  | (_, j) :: rest => numbers j ++ numbersOfMembers rest

end

theorem numbers_array (items : List Json) : (array items).numbers = items.flatMap numbers := by
  rw [numbers]
  induction items with
  | nil => rfl
  | cons j items ih => rw [numbersOfItems, ih, List.flatMap_cons]

theorem numbers_object (members : List (String × Json)) :
    (object members).numbers = members.flatMap fun m => m.2.numbers := by
  rw [numbers]
  induction members with
  | nil => rfl
  | cons m members ih => rw [numbersOfMembers, ih, List.flatMap_cons]

end Json

/-! ### Conversions -/

namespace Value

theorem ofJson_array (items : List Json) : ofJson (.array items) = .list (items.map ofJson) := by
  rw [ofJson]
  induction items with
  | nil => rfl
  | cons j items ih => rw [ofJsonItems, List.map_cons, Value.list.inj ih]

theorem ofJson_object (members : List (String × Json)) :
    ofJson (.object members) = .object (members.map fun m => (m.1, ofJson m.2)) := by
  rw [ofJson]
  induction members with
  | nil => rfl
  | cons m members ih => rw [ofJsonMembers, List.map_cons, Value.object.inj ih]

theorem toJson_list (items : List Value) : (list items).toJson = .array (items.map toJson) := by
  rw [toJson]
  induction items with
  | nil => rfl
  | cons v items ih => rw [toJsonItems, List.map_cons, Json.array.inj ih]

theorem toJson_object (fields : List (String × Value)) :
    (object fields).toJson = .object (fields.map fun f => (f.1, f.2.toJson)) := by
  rw [toJson]
  induction fields with
  | nil => rfl
  | cons f fields ih => rw [toJsonFields, List.map_cons, Json.object.inj ih]

/-- The record of an object is collected from the values of its members. -/
theorem ofJson_object_eq_ofList {members : Record Json} (h : Record.Ordered members) :
    ofJson (.object members) = .object (Record.ofList (members.map fun m => (m.1, ofJson m.2))) := by
  rw [ofJson_object, Record.ofList_eq_self (Record.ordered_map.2 h)]

end Value

/-- An integer takes the narrowest type that holds it. -/
theorem Literal.integral?_eq (n : Int) : integral? n =
    if ValueType.integer.Holds n then some (ValueType.integer.ofWhole n)
    else if ValueType.long.Holds n then some (ValueType.long.ofWhole n) else none := by
  have hinteger := Evaluation.converted_eq .integer n
  rw [if_neg (by decide)] at hinteger
  have hlong := Evaluation.converted_eq .long n
  rw [if_pos rfl] at hlong
  by_cases h : ValueType.integer.Holds n
  · rw [if_pos h] at hinteger
    obtain ⟨m, hm, hv⟩ := Option.map_eq_some_iff.1 hinteger
    rw [integral?, hm, if_pos h, ← hv]
  · rw [if_neg h, Option.map_eq_none_iff] at hinteger
    rw [integral?, hinteger, if_neg h]
    exact hlong

namespace JsonNumber

open Value ValueType

/-- An integer of 64 bits with a sign comes back. -/
theorem toJson_toValue_integer {n : Int} (h : long.Holds n) :
    (integer n).toValue.toJson = .number (integer n) := by
  rw [JsonNumber.toValue, Literal.integral?_eq]
  split_ifs with hinteger
  · exact congrArg (fun m => Json.number (integer m))
      (Int32.toInt_ofInt_of_le hinteger.1 hinteger.2)
  · exact congrArg (fun m => Json.number (integer m)) (Int64.toInt_ofInt_of_le h.1 h.2)

/-- An integer that needs the bit of the sign becomes a double. -/
theorem toValue_integer_of_not_holds {n : Int} (h : ¬ long.Holds n) :
    (integer n).toValue = .double (.ofInt n) := by
  have hinteger : ¬ ValueType.integer.Holds n := by
    intro hn
    simp only [Holds] at h hn
    omega
  rw [JsonNumber.toValue, Literal.integral?_eq, if_neg hinteger, if_neg h, Option.getD_none]

/-- **A number stays a number of the same value**, and the same number unless it is an integer which
has no 64 bits with a sign. -/
theorem toJson_toValue {n : JsonNumber} (h : n.WellFormed) :
    ∃ m : JsonNumber, n.toValue.toJson = .number m ∧ m.WellFormed ∧ m.toValue = n.toValue ∧
      (m = n ↔ ∀ k, n = integer k → long.Holds k) := by
  cases n with
  | float x =>
    have hx : x.isFinite = true := h
    exact ⟨float x, if_pos hx, hx, rfl, iff_of_true rfl nofun⟩
  | integer k =>
    obtain ⟨hlow, hhigh⟩ := h
    by_cases hk : long.Holds k
    · refine ⟨integer k, toJson_toValue_integer hk, ⟨hlow, hhigh⟩, rfl, iff_of_true rfl ?_⟩
      rintro _ ⟨⟩
      exact hk
    · have hfinite : (Binary64.ofInt k).isFinite = true := Binary64.isFinite_ofInt (by omega)
      rw [toValue_integer_of_not_holds hk]
      exact ⟨float (.ofInt k), if_pos hfinite, hfinite, rfl,
        iff_of_false nofun fun hall => hk (hall k rfl)⟩

end JsonNumber

namespace Value

/-- What a document becomes by way of its value is a document again. -/
theorem wellFormed_toJson_ofJson {j : Json} (h : j.WellFormed) : (ofJson j).toJson.WellFormed := by
  induction h with
  | null => exact .null
  | bool b => exact .bool b
  | string s => exact .string s
  | number h =>
    obtain ⟨m, hm, hwritten, -⟩ := JsonNumber.toJson_toValue h
    rw [ofJson, hm]
    exact .number hwritten
  | array h ih =>
    rw [ofJson_array, toJson_list, List.map_map]
    exact .array (List.forall_mem_map.2 ih)
  | object hordered h ih =>
    rw [ofJson_object, toJson_object]
    refine .object (Record.ordered_map.2 (Record.ordered_map.2 hordered)) ?_
    rw [List.map_map]
    exact List.forall_mem_map.2 ih

/-- The value comes back from the document. -/
theorem ofJson_toJson_ofJson {j : Json} (h : j.WellFormed) :
    ofJson (ofJson j).toJson = ofJson j := by
  induction h with
  | null | bool | string => rfl
  | number h =>
    obtain ⟨m, hm, -, hvalue, -⟩ := JsonNumber.toJson_toValue h
    rw [ofJson, hm, ofJson, hvalue]
  | array h ih =>
    rw [ofJson_array, toJson_list, ofJson_array, List.map_map, List.map_map]
    exact congrArg list (List.map_congr_left ih)
  | object hordered h ih =>
    rw [ofJson_object, toJson_object, ofJson_object, List.map_map, List.map_map]
    exact congrArg object (List.map_congr_left fun m hm => by simp [ih m hm])

/-- Parts come back together if each of them does, which its integers tell. -/
theorem map_eq_self_iff {α : Type} {f : α → α} {numbers : α → List JsonNumber} {P : Int → Prop}
    {parts : List α} (h : ∀ a ∈ parts, f a = a ↔ ∀ n, .integer n ∈ numbers a → P n) :
    parts.map f = parts ↔ ∀ n, .integer n ∈ parts.flatMap numbers → P n := by
  have hself : parts.map f = parts ↔ ∀ a ∈ parts, f a = a := by
    conv_lhs => rhs; rw [← List.map_id parts]
    exact List.map_inj_left
  rw [hself]
  constructor
  · intro hall n hn
    obtain ⟨a, ha, hn⟩ := List.mem_flatMap.1 hn
    exact (h a ha).1 (hall a ha) n hn
  · intro hall a ha
    exact (h a ha).2 fun n hn => hall n (List.mem_flatMap.2 ⟨a, ha, hn⟩)

/-- The document comes back from the value just if all its integers have 64 bits with a sign. -/
theorem toJson_ofJson_eq_self_iff {j : Json} (h : j.WellFormed) :
    (ofJson j).toJson = j ↔ ∀ n, .integer n ∈ j.numbers → ValueType.long.Holds n := by
  induction h with
  | null | bool | string => exact iff_of_true rfl nofun
  | @number n h =>
    obtain ⟨m, hm, -, -, hsame⟩ := JsonNumber.toJson_toValue h
    rw [ofJson, hm, Json.number.injEq, hsame, Json.numbers]
    simp only [List.mem_singleton, eq_comm]
  | array h ih =>
    rw [ofJson_array, toJson_list, List.map_map, Json.array.injEq, Json.numbers_array]
    exact map_eq_self_iff ih
  | object hordered h ih =>
    rw [ofJson_object, toJson_object, List.map_map, Json.object.injEq, Json.numbers_object]
    refine map_eq_self_iff fun m hm => ?_
    rw [← ih m hm, Prod.ext_iff]
    exact and_iff_right rfl

/-- **Documents are converted without loss up to integers of 64 bits with a sign, and once and for all
beyond.** A document comes back from its value just if every integer in it has 64 bits with a sign.
Whatever the document, what comes back is a document again, and of the same value. -/
theorem toJson_ofJson_iff {j : Json} (h : j.WellFormed) :
    ((ofJson j).toJson = j ↔ ∀ n : Int, .integer n ∈ j.numbers → -2 ^ 63 ≤ n ∧ n < 2 ^ 63) ∧
      (ofJson j).toJson.WellFormed ∧ ofJson (ofJson j).toJson = ofJson j :=
  ⟨toJson_ofJson_eq_self_iff h, wellFormed_toJson_ofJson h, ofJson_toJson_ofJson h⟩

/-- An order with a negative zero in it, and the largest number without a sign, which becomes a double
and stays one. -/
theorem toJson_ofJson_iff_order :
    let order := Json.object [("id", .number (.integer (2 ^ 63 - 1))),
      ("items", .array [.null, .number (.float ⟨0x8000000000000000⟩), .number (.integer (-5))])]
    let wide := Json.number (.integer (2 ^ 64 - 1))
    (order.WellFormed ∧ (ofJson order).toJson = order) ∧
      wide.WellFormed ∧ (ofJson wide).toJson ≠ wide ∧
        ofJson (ofJson wide).toJson = ofJson wide := by
  intro order wide
  have horder : order.WellFormed := by
    have hitems : ∀ j ∈ [Json.null, .number (.float ⟨0x8000000000000000⟩), .number (.integer (-5))],
        j.WellFormed := by
      simpa using ⟨.null, .number (by decide), .number (by decide)⟩
    refine .object (by decide) ?_
    simpa using ⟨.number (by decide), .array hitems⟩
  have hwide : wide.WellFormed := .number (by decide)
  refine ⟨⟨horder, (toJson_ofJson_iff horder).1.2 ?_⟩, hwide, fun hsame => ?_,
    (toJson_ofJson_iff hwide).2.2⟩
  · intro n hn
    have hn : n = 2 ^ 63 - 1 ∨ n = -5 := by
      simpa [order, Json.numbers, Json.numbersOfItems, Json.numbersOfMembers] using hn
    omega
  · have := (toJson_ofJson_iff hwide).1.1 hsame (2 ^ 64 - 1) (by simp [wide, Json.numbers])
    omega

end Value

end Criteria

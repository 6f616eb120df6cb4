import Criteria.Evaluation
import Criteria.Proofs.Expression.Paths
import Criteria.Proofs.Fallible

/-!
# Walking along paths

* `FieldPath.append`: the path along one path and then along another, written with a separator
  between the two (`parse?_render_append`);
* `Evaluation.descend_append`: a walk is a walk along the first segments and from where it ends along
  the others. A walk that has come to null stays there (`descend_null`);
* `FieldPath.parse?_and_resolve_append`: which texts name a path and which of them the same one, and
  what two paths in a row resolve to.
-/

namespace Criteria

namespace FieldPath

open Text

/-- The path along `p` and from its end along `q`. -/
def append (p q : FieldPath) : FieldPath := ⟨p.segments ++ q.parents, q.leaf⟩

instance : Append FieldPath := ⟨append⟩

@[simp] theorem segments_append (p q : FieldPath) : (p ++ q).segments = p.segments ++ q.segments :=
  List.append_assoc p.segments q.parents [q.leaf]

/-- Two paths with separators between them are the text of the path along both. -/
theorem parse?_render_append {p q : FieldPath} (hp : p.WellFormed) (hq : q.WellFormed)
    {between : String} (hne : between ≠ "") (hbetween : IsSeparators between) :
    parse? (p.render ++ between ++ q.render) = some (p ++ q) := by
  refine parse?_of_filter_splitAt ?_
  rw [String.toList_append, String.toList_append, List.append_assoc,
    filter_splitAt_append (by simpa using hne) hbetween, filter_splitAt_render hp,
    filter_splitAt_render hq, segments_append, List.map_append]

end FieldPath

namespace Evaluation

/-- From null there is no way on, and none is missed. -/
@[simp] theorem descend_null (path : FieldPath) (segments : List String) :
    descend path .null segments = .ok .null := by
  cases segments <;> rfl

/-- **A walk is made of walks.** -/
theorem descend_append (path : FieldPath) (v : Value) (before behind : List String) :
    descend path v (before ++ behind) =
      (do descend path (← descend path v before) behind) := by
  induction before generalizing v with
  | nil => cases v <;> cases behind <;> rfl
  | cons segment before ih =>
    cases v with
    | null => simp
    | object fields =>
      rw [List.cons_append, descend, descend]
      cases Record.get? fields segment with
      | none => simp
      | some w => exact ih w
    | _ => rfl

/-- The path of a walk stands in its errors alone. -/
theorem descend_eq_ok_iff {path path' : FieldPath} {v w : Value} {segments : List String} :
    descend path v segments = .ok w ↔ descend path' v segments = .ok w := by
  induction segments generalizing v with
  | nil => cases v <;> exact Iff.rfl
  | cons segment segments ih =>
    cases v with
    | null => exact Iff.rfl
    | object fields =>
      rw [descend, descend]
      cases Record.get? fields segment with
      | none => exact Iff.rfl
      | some u => exact ih
    | _ => exact ⟨nofun, nofun⟩

/-- The path along two others leads to where the second leads from the end of the first. -/
theorem resolve_append_iff {document v : Value} {p q : FieldPath} :
    resolve (some document) (p ++ q) = .ok v ↔
      ∃ u, resolve (some document) p = .ok u ∧ resolve (some u) q = .ok v := by
  simp only [resolve, FieldPath.segments_append, descend_append, bind_eq_ok_iff]
  refine exists_congr fun u => and_congr ?_ ?_ <;> exact descend_eq_ok_iff

end Evaluation

namespace FieldPath

open Evaluation

/-- **Texts that name a path, and what paths in a row resolve to.** A text names no path just if it is
made of separators alone. Else the segments of its path are not empty and have no separators in them,
and the text of the path is read as the path; it does not matter by which and how many separators two
segments are parted, nor whether there are any at the ends. The path along `p` and then along `q` is
written with the one behind the other; it resolves to null if `p` does, and else to what `q` resolves
to in the value of `p`. -/
theorem parse?_and_resolve_append :
    (∀ text, (parse? text = none ↔ IsSeparators text) ∧
      ∀ p, parse? text = some p → p.WellFormed ∧ parse? p.render = some p) ∧
    (∀ a u w b, u ≠ "" → IsSeparators u → w ≠ "" → IsSeparators w →
      parse? (a ++ u ++ b) = parse? (a ++ w ++ b)) ∧
    (∀ u text w, IsSeparators u → IsSeparators w → parse? (u ++ text ++ w) = parse? text) ∧
    ∀ p q : FieldPath, (p ++ q).segments = p.segments ++ q.segments ∧
      (p.WellFormed → q.WellFormed → ∀ u, u ≠ "" → IsSeparators u →
        parse? (p.render ++ u ++ q.render) = some (p ++ q)) ∧
      ∀ document v : Value, resolve (some document) (p ++ q) = .ok v ↔
        (resolve (some document) p = .ok .null ∧ v = .null) ∨
          ∃ u, u ≠ .null ∧ resolve (some document) p = .ok u ∧ resolve (some u) q = .ok v := by
  refine ⟨fun text => ⟨parse?_eq_none_iff, fun p hp => ?_⟩,
    fun a u w b hune hu hwne hw => parse?_append_separators hune hu hwne hw,
    fun u text w hu hw => parse?_between_separators hu hw text,
    fun p q => ⟨segments_append p q,
      fun hp hq u hune hu => parse?_render_append hp hq hune hu, fun document v => ?_⟩⟩
  · have hwritten := wellFormed_of_parse? hp
    exact ⟨hwritten, parse?_render hwritten⟩
  · have hnull : resolve (some .null) q = .ok v ↔ v = .null := by
      rw [resolve, descend_null, Except.ok.injEq, eq_comm]
    rw [resolve_append_iff]
    constructor
    · rintro ⟨u, hp, hq⟩
      by_cases hu : u = .null
      · subst hu
        exact .inl ⟨hp, hnull.1 hq⟩
      · exact .inr ⟨u, hu, hp, hq⟩
    · rintro (⟨hp, hv⟩ | ⟨u, -, hp, hq⟩)
      · exact ⟨.null, hp, hnull.2 hv⟩
      · exact ⟨u, hp, hq⟩

/-- A customer whose name is asked for, in a document where there is one and in one where it is null. -/
theorem parse?_and_resolve_append_customer :
    let customer : FieldPath := ⟨["order"], "customer"⟩
    let name : FieldPath := ⟨[], "name"⟩
    let document (v : Value) := Value.object [("order", .object [("customer", v)])]
    let known := Value.object [("name", .string "Ann")]
    parse? "./\\" = none ∧
      parse? ("order" ++ ".\\." ++ "customer") = parse? ("order" ++ "/" ++ "customer") ∧
      parse? ("/" ++ "order.customer" ++ "..") = parse? "order.customer" ∧
      parse? (customer.render ++ "." ++ name.render) = some (customer ++ name) ∧
      resolve (some (document .null)) (customer ++ name) = .ok .null ∧
      resolve (some (document known)) (customer ++ name) = .ok (.string "Ann") := by
  intro customer name document known
  obtain ⟨hparse, hruns, hends, happend⟩ := parse?_and_resolve_append
  obtain ⟨-, hwritten, hresolve⟩ := happend customer name
  refine ⟨(hparse "./\\").1.2 (by decide), ?_, ?_, ?_, ?_, ?_⟩
  · exact hruns "order" ".\\." "/" "customer" (by decide) (by decide) (by decide) (by decide)
  · exact hends "/" "order.customer" ".." (by decide) (by decide)
  · have hcustomer : parse? "order.customer" = some customer := by decide
    have hname : parse? "name" = some name := by decide
    exact hwritten (wellFormed_of_parse? hcustomer) (wellFormed_of_parse? hname) "." (by decide)
      (by decide)
  · exact (hresolve (document .null) .null).2 (.inl ⟨by decide, rfl⟩)
  · exact (hresolve (document known) (.string "Ann")).2
      (.inr ⟨known, by decide, by decide, by decide⟩)

end FieldPath

end Criteria

import GameTimeline.Proofs.Json.Extensional
import GameTimeline.Proofs.Text.Notation

namespace GameTimeline.Json

variable {j v : Json} {ms : List (String × Json)} {p q : List String} {t : String} {i : Nat}

theorem descend_nil (j : Json) : j.descend [] = some j := rfl

theorem descend_cons (j : Json) (t : String) (p : List String) :
    j.descend (t :: p) = (j.child? t).bind (·.descend p) := rfl

theorem descend_member {x : Json} (hx : Table.findEntry t ms = some x) (p : List String) :
    (Json.obj ms).descend (t :: p) = x.descend p := by
  rw [descend_cons, child?, hx]
  rfl

theorem descend_append (j : Json) (p q : List String) :
    j.descend (p ++ q) = (j.descend p).bind (·.descend q) := by
  rw [descend, List.foldlM_append]
  rfl

theorem isObject_iff : j.isObject = true ↔ ∃ ms, j = .obj ms := by
  cases j <;> simp [isObject]

def ObjectsTo (j : Json) (p : List String) : Prop :=
  ∀ q, q <+: p → ∃ ms, j.descend q = some (.obj ms)

theorem objectsTo_nil : j.ObjectsTo [] ↔ j.isObject = true := by
  simp [ObjectsTo, isObject_iff, descend_nil]

theorem ObjectsTo.isObject (h : j.ObjectsTo p) : j.isObject = true :=
  objectsTo_nil.mp fun q hq => h q (hq.trans List.nil_prefix)

theorem objectsTo_cons : (Json.obj ms).ObjectsTo (t :: p) ↔
    ∃ x, Table.findEntry t ms = some x ∧ x.ObjectsTo p := by
  constructor
  · intro h
    cases hx : Table.findEntry t ms with
    | none =>
        obtain ⟨ns, hns⟩ := h [t] ⟨p, rfl⟩
        rw [descend_cons, child?, hx] at hns
        cases hns
    | some x =>
        refine ⟨x, rfl, fun q hq => ?_⟩
        obtain ⟨ns, hns⟩ := h (t :: q) (List.cons_prefix_cons.mpr ⟨rfl, hq⟩)
        rw [descend_member hx] at hns
        exact ⟨ns, hns⟩
  · rintro ⟨x, hx, h⟩ q hq
    cases q with
    | nil => exact ⟨ms, rfl⟩
    | cons u q =>
        obtain ⟨rfl, hrest⟩ := List.cons_prefix_cons.mp hq
        rw [descend_member hx]
        exact h q hrest

theorem Proper.child? (h : j.Proper) {x : Json} (hx : j.child? t = some x) : x.Proper := by
  cases h with
  | arr hall =>
      obtain ⟨i, -, hi⟩ := Option.bind_eq_some_iff.mp hx
      exact hall x (List.mem_of_getElem? hi)
  | obj _ hall => exact Proper.findEntry hall hx
  | _ => cases hx

theorem Proper.descend (h : j.Proper) (hv : j.descend p = some v) : v.Proper := by
  induction p generalizing j with
  | nil =>
      cases hv
      exact h
  | cons t p ih =>
      obtain ⟨x, hx, hv⟩ := Option.bind_eq_some_iff.mp hv
      exact ih (h.child? hx) hv

theorem Proper.same_self (h : j.Proper) : j.Same j := (sorted_eq_iff h h).mp rfl

inductive Addressable : Json → Prop where
  | scalar {j : Json} (h : j.isScalar = true) : Addressable j
  | arr {xs : List Json} (length : xs.length ≤ UInt64.size) (h : ∀ x ∈ xs, Addressable x) :
      Addressable (.arr xs)
  | obj {ms : List (String × Json)} (h : ∀ m ∈ ms, Addressable m.2) : Addressable (.obj ms)

theorem Pointer.index?_showNat (h : i ≤ Text.maxWord) : index? (Text.showNat i) = some i := by
  rw [index?, Text.showNat, String.toList_ofList]
  split
  · rename_i hzero
    have hvalue := congrArg Text.natOf hzero
    rw [Text.natOf_toDigits] at hvalue
    rw [hvalue]
    rfl
  · rename_i ds hne hlead
    rcases Nat.eq_zero_or_pos i with rfl | hpos
    · have hdigits : ['0'] = '0' :: ds := hlead
      exact absurd (List.cons.inj hdigits).2.symm hne
    · have hhead := Text.head_toDigits hpos
      rw [hlead] at hhead
      exact absurd rfl hhead
  · rw [Text.nat?_toDigits, Option.filter_some, decide_eq_true h]
    rfl

theorem Pointer.eq_showNat_of_index? (h : index? t = some i) : t = Text.showNat i := by
  have hdigits : t.toList = Nat.toDigits 10 i := by
    rw [index?] at h
    split at h
    · rename_i hzero
      cases h
      exact hzero
    · cases h
    · rename_i hzero hlead
      obtain ⟨hread, -⟩ := Option.filter_eq_some_iff.mp h
      refine (Text.nat?_eq_some_iff.mp hread).eq_toDigits ?_
      intro hhead
      obtain ⟨ds, hds⟩ := List.head?_eq_some_iff.mp hhead
      exact absurd hds (hlead ds)
  rw [Text.showNat, ← hdigits, String.ofList_toList]

theorem at_of_descend (h : j.descend p = some v) : j.At p v := by
  induction p generalizing j with
  | nil =>
      cases h
      exact .here
  | cons t p ih =>
      obtain ⟨x, hx, hv⟩ := Option.bind_eq_some_iff.mp h
      cases j with
      | obj ms => exact .member (Table.mem_of_findEntry hx) (ih hv)
      | arr xs =>
          obtain ⟨i, hi, hitem⟩ := Option.bind_eq_some_iff.mp hx
          rw [Pointer.eq_showNat_of_index? hi]
          exact .item hitem (ih hv)
      | _ => cases hx

theorem descend_eq_some_iff (hp : j.Proper) (ha : j.Addressable) :
    j.descend p = some v ↔ j.At p v := by
  refine ⟨at_of_descend, fun h => ?_⟩
  induction h with
  | here => rfl
  | @member ms k x v p hm _ ih =>
      cases hp with
      | obj names hall =>
      cases ha with
      | scalar hscalar => cases hscalar
      | obj haddressable =>
      rw [descend_member (Table.findEntry_of_mem names hm)]
      exact ih (hall _ hm) (haddressable _ hm)
  | @item xs i x v p hi _ ih =>
      have hx : x ∈ xs := List.mem_of_getElem? hi
      cases hp with
      | arr hall =>
      cases ha with
      | scalar hscalar => cases hscalar
      | arr hlength haddressable =>
      have hplace : i ≤ Text.maxWord := by
        have hlt := (List.getElem?_eq_some_iff.mp hi).1
        exact Nat.le_pred_of_lt (Nat.lt_of_lt_of_le hlt hlength)
      rw [descend_cons, child?, Pointer.index?_showNat hplace, Option.bind_some, hi]
      exact ih (hall x hx) (haddressable x hx)

theorem pointer?_ofTokens (j : Json) (p : List String) :
    j.pointer? (String.ofList (Pointer.ofTokens p)) = j.descend p := by
  rw [pointer?, String.toList_ofList, Pointer.tokens?_ofTokens]
  rfl

end GameTimeline.Json

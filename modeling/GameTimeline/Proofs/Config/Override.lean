import GameTimeline.Proofs.Config.Canonical
import GameTimeline.Proofs.Json.Descent

namespace GameTimeline.Config

open Json (Same Proper)

variable {a b v w : Json} {result : Option Json} {as bs : List (String × Json)}
  {p q r : List String} {t : String}

theorem child?_merge (hb : (Json.obj bs).Proper) (as : List (String × Json)) (t : String) :
    (merge (.obj as) (.obj bs)).child? t =
      ((Table.findEntry t bs).map (merge ((Table.findEntry t as).getD .null))).or
        (Table.findEntry t as) := by
  cases hb with
  | obj names _ => exact findEntry_mergeMembers names as t

theorem merge_of_not_both (h : ¬ (a.isObject = true ∧ b.isObject = true)) : merge a b = b := by
  cases b with
  | obj bs =>
      cases a with
      | obj as => exact absurd ⟨rfl, rfl⟩ h
      | _ => rfl
  | _ => exact merge_of_not_isObject a rfl

theorem descend_merge_of_objectsTo (hb : b.Proper) (ha' : a.ObjectsTo p) (hb' : b.ObjectsTo p)
    (hv : a.descend p = some v) (hw : b.descend p = some w) :
    (merge a b).descend p = some (merge v w) := by
  induction p generalizing a b with
  | nil =>
      cases hv
      cases hw
      rfl
  | cons t p ih =>
      obtain ⟨as, rfl⟩ := Json.isObject_iff.mp ha'.isObject
      obtain ⟨bs, rfl⟩ := Json.isObject_iff.mp hb'.isObject
      obtain ⟨x, hx, hax⟩ := Json.objectsTo_cons.mp ha'
      obtain ⟨y, hy, hby⟩ := Json.objectsTo_cons.mp hb'
      rw [Json.descend_member hx] at hv
      rw [Json.descend_member hy] at hw
      rw [Json.descend_cons, child?_merge hb, hx, hy]
      exact ih (hb.child? hy) hax hby hv hw

theorem descend_merge_of_some (hb : b.Proper) (hw : b.descend p = some w)
    (hnot : ¬ (a.ObjectsTo p ∧ b.ObjectsTo p)) : (merge a b).descend p = some w := by
  induction p generalizing a b with
  | nil =>
      rw [Json.objectsTo_nil, Json.objectsTo_nil] at hnot
      rwa [merge_of_not_both hnot]
  | cons t p ih =>
      by_cases hobjects : a.isObject = true ∧ b.isObject = true
      · obtain ⟨as, rfl⟩ := Json.isObject_iff.mp hobjects.1
        obtain ⟨bs, rfl⟩ := Json.isObject_iff.mp hobjects.2
        obtain ⟨y, hy, hyw⟩ := Option.bind_eq_some_iff.mp hw
        rw [Json.descend_cons, child?_merge hb, show Table.findEntry t bs = some y from hy]
        refine ih (hb.child? hy) hyw ?_
        rintro ⟨hx', hy'⟩
        -- a null stands in for a member that is missing, and it is no object
        cases hx : Table.findEntry t as with
        | none =>
            rw [hx] at hx'
            cases hx'.isObject
        | some x =>
            rw [hx] at hx'
            exact hnot ⟨Json.objectsTo_cons.mpr ⟨x, hx, hx'⟩, Json.objectsTo_cons.mpr ⟨y, hy, hy'⟩⟩
      · rwa [merge_of_not_both hobjects]

inductive Overrides (a b : Json) (p : List String) : Option Json → Prop where
  | merged {v w : Json} : a.descend p = some v → b.descend p = some w → a.ObjectsTo p →
      b.ObjectsTo p → Overrides a b p (some (merge v w))
  | replaced {w : Json} : b.descend p = some w → ¬ (a.ObjectsTo p ∧ b.ObjectsTo p) →
      Overrides a b p (some w)
  | cut {q : List String} {w : Json} : b.descend p = none → q <+: p → q ≠ p →
      b.descend q = some w → w.isObject = false → Overrides a b p none
  | kept {q r : List String} {t : String} {bs : List (String × Json)} : p = q ++ t :: r →
      b.ObjectsTo q → b.descend q = some (.obj bs) → t ∉ bs.map (·.1) → a.ObjectsTo q →
      Overrides a b p (a.descend p)
  | lost {q r : List String} {t : String} {bs : List (String × Json)} : p = q ++ t :: r →
      b.ObjectsTo q → b.descend q = some (.obj bs) → t ∉ bs.map (·.1) → ¬ a.ObjectsTo q →
      Overrides a b p none

theorem Overrides.eq (hb : b.Proper) (h : Overrides a b p result) :
    (merge a b).descend p = result := by
  cases h with
  | merged hv hw ha' hb' => exact descend_merge_of_objectsTo hb ha' hb' hv hw
  | replaced hw hnot => exact descend_merge_of_some hb hw hnot
  | @cut q w hnone hq _ hw hobject =>
      obtain ⟨r, rfl⟩ := hq
      have hscalar : ¬ (a.ObjectsTo q ∧ b.ObjectsTo q) := by
        rintro ⟨-, hb'⟩
        obtain ⟨bs, hbs⟩ := hb' q List.prefix_rfl
        rw [hw] at hbs
        cases hbs
        cases hobject
      rw [Json.descend_append, descend_merge_of_some hb hw hscalar]
      rwa [Json.descend_append, hw] at hnone
  | @kept q r t bs hp hb' hbs ht ha' =>
      obtain ⟨as, has⟩ := ha' q List.prefix_rfl
      have hlacks := Table.findEntry_eq_none_iff.mpr ht
      rw [hp, Json.descend_append, Json.descend_append,
        descend_merge_of_objectsTo hb ha' hb' has hbs, has, Option.bind_some, Option.bind_some,
        Json.descend_cons, Json.descend_cons, child?_merge (hb.descend hbs), hlacks]
      rfl
  | @lost q r t bs hp hb' hbs ht ha' =>
      have hlacks := Table.findEntry_eq_none_iff.mpr ht
      rw [hp, Json.descend_append, descend_merge_of_some hb hbs fun h => ha' h.1,
        Option.bind_some, Json.descend_cons, Json.child?, hlacks]
      rfl

theorem ends_of_descend_eq_none (h : b.descend p = none) :
    (∃ q w, q <+: p ∧ q ≠ p ∧ b.descend q = some w ∧ w.isObject = false) ∨
      ∃ q t r bs, p = q ++ t :: r ∧ b.ObjectsTo q ∧ b.descend q = some (.obj bs) ∧
        t ∉ bs.map (·.1) := by
  induction p generalizing b with
  | nil => cases h
  | cons t p ih =>
      by_cases hobject : b.isObject = true
      · obtain ⟨bs, rfl⟩ := Json.isObject_iff.mp hobject
        cases hy : Table.findEntry t bs with
        | none =>
            exact .inr ⟨[], t, p, bs, rfl, Json.objectsTo_nil.mpr rfl, rfl,
              Table.findEntry_eq_none_iff.mp hy⟩
        | some y =>
            rw [Json.descend_member hy] at h
            rcases ih h with ⟨q, w, hq, hne, hw, hscalar⟩ | ⟨q, u, r, cs, rfl, hobjects, hcs, hu⟩
            · refine .inl ⟨t :: q, w, List.cons_prefix_cons.mpr ⟨rfl, hq⟩, ?_, ?_, hscalar⟩
              · rintro ⟨⟩
                exact hne rfl
              · rw [Json.descend_member hy, hw]
            · refine .inr ⟨t :: q, u, r, cs, rfl, Json.objectsTo_cons.mpr ⟨y, hy, hobjects⟩, ?_, hu⟩
              rw [Json.descend_member hy, hcs]
      · exact .inl ⟨[], b, List.nil_prefix, (List.cons_ne_nil t p).symm, rfl,
          Bool.eq_false_of_not_eq_true hobject⟩

theorem overrides_descend (hb : b.Proper) (a : Json) (p : List String) :
    Overrides a b p ((merge a b).descend p) := by
  cases hw : b.descend p with
  | some w =>
      by_cases hboth : a.ObjectsTo p ∧ b.ObjectsTo p
      · obtain ⟨as, has⟩ := hboth.1 p List.prefix_rfl
        rw [descend_merge_of_objectsTo hb hboth.1 hboth.2 has hw]
        exact .merged has hw hboth.1 hboth.2
      · rw [descend_merge_of_some hb hw hboth]
        exact .replaced hw hboth
  | none =>
      rcases ends_of_descend_eq_none hw with ⟨q, w, hq, hne, hqw, hscalar⟩ |
        ⟨q, t, r, bs, hp, hobjects, hbs, ht⟩
      · have hcut : Overrides a b p none := .cut hw hq hne hqw hscalar
        rwa [hcut.eq hb]
      · by_cases ha' : a.ObjectsTo q
        · have hkept : Overrides a b p (a.descend p) := .kept hp hobjects hbs ht ha'
          rwa [hkept.eq hb]
        · have hlost : Overrides a b p none := .lost hp hobjects hbs ht ha'
          rwa [hlost.eq hb]

theorem same_merge_self (ha : a.Proper) : (merge a a).Same a := by
  induction a using Json.induct with
  | obj as ih =>
      refine .obj fun k => ?_
      cases ha with
      | obj names hall =>
      rw [findEntry_mergeMembers names]
      cases hx : Table.findEntry k as with
      | none => exact .none
      | some x => exact .some (ih _ (Table.mem_of_findEntry hx) (Proper.findEntry hall hx))
  | _ =>
      rw [merge_of_not_isObject _ rfl]
      exact ha.same_self

theorem same_merge_merge (ha : a.Proper) (hb : b.Proper) :
    (merge (merge a b) b).Same (merge a b) := by
  induction b using Json.induct generalizing a with
  | obj bs ih =>
      by_cases hobject : a.isObject = true
      · obtain ⟨as, rfl⟩ := Json.isObject_iff.mp hobject
        refine .obj fun k => ?_
        cases hb with
        | obj names hall =>
        rw [findEntry_mergeMembers names, findEntry_mergeMembers names]
        cases hy : Table.findEntry k bs with
        | none =>
            cases hx : Table.findEntry k as with
            | none => exact .none
            | some x => exact .some (ha.child? hx).same_self
        | some y =>
            have hbase : ((Table.findEntry k as).getD .null).Proper := by
              cases hx : Table.findEntry k as with
              | none => exact .null
              | some x => exact ha.child? hx
            exact .some (ih _ (Table.mem_of_findEntry hy) hbase (Proper.findEntry hall hy))
      · rw [merge_of_not_both fun h => hobject h.1]
        exact same_merge_self hb
  | _ =>
      rw [merge_of_not_isObject a rfl, merge_of_not_isObject _ rfl]
      exact hb.same_self

theorem merge_pathwise (ha : a.Proper) (hb : b.Proper) :
    (∀ p result, (merge a b).descend p = result ↔ Overrides a b p result) ∧
    (a.isObject = true → merge a (.obj []) = a) ∧
    (merge a a).Same a ∧ (merge (merge a b) b).Same (merge a b) := by
  refine ⟨fun p result => ⟨?_, Overrides.eq hb⟩, ?_, same_merge_self ha, same_merge_merge ha hb⟩
  · rintro rfl
    exact overrides_descend hb a p
  · intro hobject
    obtain ⟨as, rfl⟩ := Json.isObject_iff.mp hobject
    rfl

theorem merge_pathwise_sections :
    let base := Json.obj [("fields", .arr [.str "gold"]),
      ("reconcile", .obj [("majority", .nat 3)]), ("session", .obj [("participant", .nat 1)])]
    let top := Json.obj [("fields", .arr []), ("reconcile", .obj [("window", .nat 5)]),
      ("session", .null)]
    base.Proper ∧ top.Proper ∧
      Overrides base top ["fields", "0"] none ∧
      Overrides base top ["reconcile", "majority"] (some (.nat 3)) ∧
      Overrides base top ["reconcile"] (some (.obj [("majority", .nat 3), ("window", .nat 5)])) ∧
      Overrides base top ["session", "participant"] none ∧
      (merge (merge base top) top).Same (merge base top) := by
  intro base top
  have hone (k : String) (n : Nat) : (Json.obj [(k, .nat n)]).Proper :=
    .obj (List.nodup_singleton k) (List.forall_mem_singleton.mpr (.num rfl))
  have hbase : base.Proper := by
    refine .obj (by decide) ?_
    rw [List.forall_mem_cons, List.forall_mem_cons, List.forall_mem_singleton]
    exact ⟨.arr (List.forall_mem_singleton.mpr (.str _)), hone _ _, hone _ _⟩
  have htop : top.Proper := by
    refine .obj (by decide) ?_
    rw [List.forall_mem_cons, List.forall_mem_cons, List.forall_mem_singleton]
    exact ⟨.arr (List.forall_mem_nil _), hone _ _, .null⟩
  obtain ⟨hpath, -, -, hagain⟩ := merge_pathwise hbase htop
  exact ⟨hbase, htop, (hpath _ _).mp rfl, (hpath _ _).mp rfl, (hpath _ _).mp rfl,
    (hpath _ _).mp rfl, hagain⟩

end GameTimeline.Config

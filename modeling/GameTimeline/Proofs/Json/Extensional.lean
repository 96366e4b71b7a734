import GameTimeline.Proofs.Json.Path
import GameTimeline.Proofs.Table
import Mathlib.Data.List.Forall2

namespace GameTimeline

def Number.isFinite : Number → Bool
  | .int _ => true
  | .float x => x.isFinite

namespace Json

inductive Same : Json → Json → Prop where
  | null : Same .null .null
  | bool (b : Bool) : Same (.bool b) (.bool b)
  | num (n : Number) : Same (.num n) (.num n)
  | str (s : String) : Same (.str s) (.str s)
  | arr {xs ys : List Json} (h : List.Forall₂ Same xs ys) : Same (.arr xs) (.arr ys)
  | obj {ms ns : List (String × Json)}
      (h : ∀ k, Option.Rel Same (Table.findEntry k ms) (Table.findEntry k ns)) :
      Same (.obj ms) (.obj ns)

inductive Proper : Json → Prop where
  | null : Proper .null
  | bool (b : Bool) : Proper (.bool b)
  | num {n : Number} (h : n.isFinite = true) : Proper (.num n)
  | str (s : String) : Proper (.str s)
  | arr {xs : List Json} (h : ∀ x ∈ xs, Proper x) : Proper (.arr xs)
  | obj {ms : List (String × Json)} (names : (ms.map (·.1)).Nodup) (h : ∀ m ∈ ms, Proper m.2) :
      Proper (.obj ms)

variable {j j' : Json} {xs ys : List Json} {ms ns : List (String × Json)}

theorem Proper.findEntry (h : ∀ m ∈ ms, m.2.Proper) {k : String} {x : Json}
    (hx : Table.findEntry k ms = some x) : x.Proper :=
  h _ (Table.mem_of_findEntry hx)

theorem sortedMembers_eq (t : Table Json) (ms : List (String × Json)) :
    sortedMembers t.entries ms =
      ((ms.map fun m => (m.1, m.2.sorted)).foldl (fun t e => t.insert e.1 e.2) t).entries := by
  induction ms generalizing t with
  | nil => rfl
  | cons m ms ih =>
      rw [sortedMembers, List.map_cons, List.foldl_cons, ← ih]
      rfl

theorem sorted_obj (ms : List (String × Json)) : (Json.obj ms).sorted =
    .obj (Table.ofList (ms.map fun m => (m.1, m.2.sorted))).entries := by
  rw [sorted]
  exact congrArg Json.obj (sortedMembers_eq .empty ms)

theorem names_sorted (ms : List (String × Json)) :
    (ms.map fun m => (m.1, m.2.sorted)).map (·.1) = ms.map (·.1) := by
  rw [List.map_map]
  rfl

theorem sorted_obj_eq_iff (hm : (ms.map (·.1)).Nodup) (hn : (ns.map (·.1)).Nodup) :
    (Json.obj ms).sorted = (Json.obj ns).sorted ↔
      ∀ k, (Table.findEntry k ms).map sorted = (Table.findEntry k ns).map sorted := by
  have hget {l : List (String × Json)} (hl : (l.map (·.1)).Nodup) (k : String) :
      (Table.ofList (l.map fun m => (m.1, m.2.sorted))).get? k =
        (Table.findEntry k l).map sorted := by
    rw [Table.get?_ofList_of_nodup (by rwa [names_sorted]), Table.findEntry_map]
  rw [sorted_obj, sorted_obj, obj.injEq]
  constructor
  · intro h k
    rw [← hget hm, ← hget hn, Table.ext_entries h]
  · intro h
    refine congrArg Table.entries (Table.ext_get? fun k => ?_)
    rw [hget hm, hget hn, h]

theorem sortedItems_eq (l : List Json) : sortedItems l = l.map sorted := by
  induction l with
  | nil => simp [sortedItems]
  | cons x l ih => simp [sortedItems, ih]

theorem sortedItems_eq_iff (ih : ∀ x ∈ xs, ∀ y ∈ ys, x.sorted = y.sorted ↔ x.Same y) :
    sortedItems xs = sortedItems ys ↔ List.Forall₂ Same xs ys := by
  induction xs generalizing ys with
  | nil => cases ys <;> simp [sortedItems]
  | cons x xs ihs =>
      cases ys with
      | nil => simp [sortedItems]
      | cons y ys =>
          have hhead := ih x (List.mem_cons_self ..) y (List.mem_cons_self ..)
          have htail := @ihs ys fun z hz w hw =>
            ih z (List.mem_cons_of_mem _ hz) w (List.mem_cons_of_mem _ hw)
          simp only [sortedItems, List.cons.injEq, List.forall₂_cons, hhead, htail]

theorem sorted_eq_iff_of_isScalar (h : j.isScalar = true) : j.sorted = j'.sorted ↔ j = j' := by
  cases j with
  | arr xs => cases h
  | obj ms => cases h
  | _ => cases j' <;> simp [sorted]

theorem same_iff_of_isScalar (h : j.isScalar = true) : j.Same j' ↔ j = j' := by
  constructor
  · intro hsame
    cases hsame with
    | arr _ => cases h
    | obj _ => cases h
    | _ => rfl
  · rintro rfl
    cases j with
    | null => exact .null
    | bool b => exact .bool b
    | num n => exact .num n
    | str s => exact .str s
    | _ => cases h

theorem arr_same_iff : (Json.arr xs).Same (.arr ys) ↔ List.Forall₂ Same xs ys :=
  ⟨fun h => by cases h; assumption, .arr⟩

theorem obj_same_iff : (Json.obj ms).Same (.obj ns) ↔
    ∀ k, Option.Rel Same (Table.findEntry k ms) (Table.findEntry k ns) :=
  ⟨fun h => by cases h; assumption, .obj⟩

def isObject : Json → Bool
  | .obj _ => true
  | _ => false

theorem Same.isObject_eq (h : j.Same j') : j.isObject = j'.isObject := by
  cases h <;> rfl

theorem sorted_eq_iff (hj : j.Proper) (hj' : j'.Proper) : j.sorted = j'.sorted ↔ j.Same j' := by
  induction j using Json.induct generalizing j' with
  | arr xs ih =>
      cases j' with
      | arr ys =>
          cases hj with
          | arr hxs =>
          cases hj' with
          | arr hys =>
          rw [sorted, sorted, arr.injEq, arr_same_iff]
          exact sortedItems_eq_iff fun x hx y hy => ih x hx (hxs x hx) (hys y hy)
      | _ => exact ⟨fun h => by simp [sorted] at h, nofun⟩
  | obj ms ih =>
      cases j' with
      | obj ns =>
          cases hj with
          | obj hm hms =>
          cases hj' with
          | obj hn hns =>
          rw [sorted_obj_eq_iff hm hn, obj_same_iff]
          refine forall_congr' fun k => ?_
          cases hx : Table.findEntry k ms with
          | none => cases hy : Table.findEntry k ns <;> simp
          | some x =>
              cases hy : Table.findEntry k ns with
              | none => simp
              | some y =>
                  have hsame := ih _ (Table.mem_of_findEntry hx) (Proper.findEntry hms hx)
                    (Proper.findEntry hns hy)
                  simpa using hsame
      | _ => exact ⟨fun h => by simp [sorted] at h, nofun⟩
  | _ => rw [sorted_eq_iff_of_isScalar rfl, same_iff_of_isScalar rfl]

theorem Proper.sorted (h : j.Proper) : j.sorted.Proper := by
  induction j using Json.induct with
  | arr xs ih =>
      cases h with
      | arr hxs =>
      rw [Json.sorted, sortedItems_eq]
      refine .arr ?_
      intro y hy
      obtain ⟨x, hx, rfl⟩ := List.mem_map.mp hy
      exact ih x hx (hxs x hx)
  | obj ms ih =>
      cases h with
      | obj hm hms =>
      rw [sorted_obj]
      refine .obj (Table.nodup_keys _) ?_
      · intro m hm
        obtain ⟨e, he, rfl⟩ := List.mem_map.mp (Table.mem_of_mem_ofList hm)
        exact ih e he (hms e he)
  | _ => exact h

end Json

end GameTimeline

import GameTimeline.Proofs.Traversal
import GameTimeline.Table
import Mathlib.Data.List.Dedup
import Mathlib.Data.List.Sort

namespace GameTimeline.Table

variable {α β γ : Type}

theorem map_map (t : Table α) (f : String → α → β) (g : String → β → γ) :
    (t.map f).map g = t.map fun n a => g n (f n a) :=
  ext_entries (by simp [map])

theorem findEntry_eq_some_iff {k : String} {a : α} {l : List (String × α)}
    (hl : l.Pairwise (fun a b => a.1 < b.1)) : findEntry k l = some a ↔ (k, a) ∈ l := by
  induction l with
  | nil => simp [findEntry]
  | cons e r ih =>
      obtain ⟨n, b⟩ := e
      obtain ⟨hn, hr⟩ := List.pairwise_cons.mp hl
      by_cases hk : k = n
      · subst hk
        have hout : (k, a) ∉ r := fun hm => String.lt_irrefl k (hn _ hm)
        simp [findEntry, hout, eq_comm]
      · simp [findEntry, hk, ih hr]

theorem get?_eq_some_iff {t : Table α} {k : String} {a : α} :
    t.get? k = some a ↔ (k, a) ∈ t.entries :=
  findEntry_eq_some_iff t.ordered

theorem mem_values_iff {t : Table α} {a : α} : a ∈ t.values ↔ ∃ k, t.get? k = some a := by
  simp [values, get?_eq_some_iff]

theorem mem_keys_iff {t : Table α} {k : String} : k ∈ t.keys ↔ ∃ a, t.get? k = some a := by
  simp [keys, get?_eq_some_iff]

theorem ext_get? {t u : Table α} (h : ∀ k, t.get? k = u.get? k) : t = u := by
  have hmem : ∀ e, e ∈ t.entries ↔ e ∈ u.entries := by
    rintro ⟨k, a⟩
    rw [← get?_eq_some_iff, ← get?_eq_some_iff, h k]
  have hnodup {v : Table α} : v.entries.Nodup := by
    refine v.ordered.imp ?_
    rintro e _ hlt rfl
    exact String.lt_irrefl e.1 hlt
  have hperm := (List.perm_ext_iff_of_nodup hnodup hnodup).mpr hmem
  refine ext_entries (hperm.eq_of_pairwise ?_ t.ordered u.ordered)
  intro a b _ _ hab hba
  exact absurd hba (String.lt_asymm hab)

theorem ext_of_keys {t u : Table α} (hkeys : t.keys = u.keys)
    (h : ∀ k ∈ t.keys, t.get? k = u.get? k) : t = u := by
  refine ext_get? fun k => ?_
  by_cases hk : k ∈ t.keys
  · exact h k hk
  · have hnone {v : Table α} (hv : k ∉ v.keys) : v.get? k = none := by
      rw [Option.eq_none_iff_forall_ne_some]
      exact fun a ha => hv (mem_keys_iff.mpr ⟨a, ha⟩)
    rw [hnone hk, hnone (hkeys ▸ hk)]

theorem keys_insert {t : Table α} {k : String} (hk : k ∈ t.keys) (a : α) :
    (t.insert k a).keys = t.keys := by
  obtain ⟨l, hl⟩ := t
  simp only [keys, insert] at hk ⊢
  induction l with
  | nil => cases hk
  | cons e l ih =>
      obtain ⟨he, hl⟩ := List.pairwise_cons.mp hl
      have hle : e.1 ≤ k := by
        rcases List.mem_cons.mp hk with rfl | hk
        · exact String.le_refl _
        · obtain ⟨x, hx, rfl⟩ := List.mem_map.mp hk
          exact String.not_lt.mp (String.lt_asymm (he x hx))
      rw [insertEntry, if_neg (String.not_lt.mpr hle)]
      split
      · rename_i hlt
        rcases List.mem_cons.mp hk with rfl | hk
        · exact absurd hlt (String.lt_irrefl _)
        · rw [List.map_cons, List.map_cons, ih hl hk]
      · rename_i hnot
        rw [List.map_cons, List.map_cons, String.le_antisymm (String.not_lt.mp hnot) hle]

theorem get?_modify (t : Table α) (k n : String) (f : α → α) :
    (t.modify k f).get? n = if n = k then (t.get? n).map f else t.get? n := by
  rw [modify, get?_map]
  split <;> simp

def named (n : String) (l : List (String × α)) : List α := (l.filter (·.1 = n)).map (·.2)

theorem named_cons (n : String) (e : String × α) (l : List (String × α)) :
    named n (e :: l) = if e.1 = n then e.2 :: named n l else named n l := by
  by_cases he : e.1 = n <;> simp [named, he]

theorem named_filter (n : String) (p : α → Bool) (l : List (String × α)) :
    named n (l.filter (p ·.2)) = (named n l).filter p := by
  induction l with
  | nil => rfl
  | cons e l ih => by_cases he : e.1 = n <;> by_cases hp : p e.2 <;> simp [named_cons, he, hp, ih]

theorem named_filterMap (n : String) (h : α → Option β) (l : List (String × α)) :
    named n (l.filterMap fun e => (h e.2).map (e.1, ·)) = (named n l).filterMap h := by
  induction l with
  | nil => rfl
  | cons e l ih => by_cases he : e.1 = n <;> cases hh : h e.2 <;> simp [named_cons, he, hh, ih]

theorem named_map_pair (k n : String) (l : List α) :
    named n (l.map (k, ·)) = if k = n then l else [] := by
  induction l with
  | nil => simp [named]
  | cons a l ih => by_cases hk : k = n <;> simp_all [named_cons]

theorem named_flatMap (n : String) (h : α → List β) (l : List (String × α)) :
    named n (l.flatMap fun e => (h e.2).map (e.1, ·)) = (named n l).flatMap h := by
  induction l with
  | nil => rfl
  | cons e l ih =>
      have happend : named n ((h e.2).map (e.1, ·) ++
          l.flatMap fun e => (h e.2).map (e.1, ·)) =
            named n ((h e.2).map (e.1, ·)) ++ (named n l).flatMap h := by
        rw [← ih]
        simp [named]
      rw [List.flatMap_cons, happend, named_map_pair, named_cons]
      split <;> simp

theorem named_entries (t : Table α) (n : String) : named n t.entries = (t.get? n).toList := by
  obtain ⟨l, hl⟩ := t
  simp only [get?]
  induction l with
  | nil => rfl
  | cons e l ih =>
      obtain ⟨he, hl⟩ := List.pairwise_cons.mp hl
      rw [named_cons, ih hl, findEntry]
      by_cases hn : n = e.1
      · -- no later entry has the name of this one
        have hnone : findEntry n l = none := by
          rw [Option.eq_none_iff_forall_ne_some]
          intro a ha
          have hlt := he _ ((findEntry_eq_some_iff hl).mp ha)
          rw [hn] at hlt
          exact String.lt_irrefl _ hlt
        simp [hn, hn ▸ hnone]
      · simp [hn, Ne.symm hn]

theorem get?_foldl_modify (n : String) (g : β → α → α) (l : List (String × β)) (t : Table α) :
    (l.foldl (fun t e => t.modify e.1 (g e.2)) t).get? n =
      (t.get? n).map fun a => (named n l).foldl (fun a x => g x a) a := by
  induction l generalizing t with
  | nil => simp [named]
  | cons e l ih =>
      rw [List.foldl_cons, ih, get?_modify, named_cons]
      by_cases he : e.1 = n
      · simp [he, Function.comp_def]
      · simp [he, Ne.symm he]

theorem insertEntry_of_after {k : String} {a : α} {l : List (String × α)}
    (h : ∀ e ∈ l, e.1 < k) : insertEntry k a l = l ++ [(k, a)] := by
  induction l with
  | nil => rfl
  | cons e l ih =>
      have he : e.1 < k := h e (List.mem_cons_self ..)
      rw [insertEntry, if_neg (String.lt_asymm he), if_pos he,
        ih fun x hx => h x (List.mem_cons_of_mem _ hx), List.cons_append]

theorem foldl_insert_entries {t : Table α} {l : List (String × α)}
    (h : (t.entries ++ l).Pairwise (fun a b => a.1 < b.1)) :
    (l.foldl (fun t e => t.insert e.1 e.2) t).entries = t.entries ++ l := by
  induction l generalizing t with
  | nil => exact (List.append_nil _).symm
  | cons e l ih =>
      have hinsert : (t.insert e.1 e.2).entries = t.entries ++ [e] :=
        insertEntry_of_after fun x hx =>
          (List.pairwise_append.mp h).2.2 x hx e (List.mem_cons_self ..)
      rw [List.foldl_cons, ih (by rwa [hinsert, List.append_assoc]), hinsert, List.append_assoc]
      rfl

theorem ofList_entries (t : Table α) : ofList t.entries = t :=
  ext_entries (foldl_insert_entries (t := empty) t.ordered)

theorem get?_foldl_insert (l : List (String × α)) (t : Table α) (n : String) :
    (l.foldl (fun t e => t.insert e.1 e.2) t).get? n = (named n l).getLast?.or (t.get? n) := by
  induction l generalizing t with
  | nil => rfl
  | cons e l ih =>
      rw [List.foldl_cons, ih, get?_insert, named_cons]
      by_cases he : e.1 = n
      · cases hlast : (named n l).getLast? <;> simp [he, List.getLast?_cons, hlast]
      · simp [he, Ne.symm he]

theorem get?_ofList (l : List (String × α)) (n : String) :
    (ofList l).get? n = (named n l).getLast? := by
  rw [ofList, get?_foldl_insert]
  exact Option.or_none

theorem mem_named {n : String} {a : α} {l : List (String × α)} : a ∈ named n l ↔ (n, a) ∈ l := by
  simp only [named, List.mem_map, List.mem_filter, decide_eq_true_eq]
  constructor
  · rintro ⟨e, ⟨he, rfl⟩, rfl⟩
    exact he
  · intro h
    exact ⟨(n, a), ⟨h, rfl⟩, rfl⟩

theorem mem_of_mem_ofList {l : List (String × α)} {e : String × α}
    (he : e ∈ (ofList l).entries) : e ∈ l := by
  rw [← get?_eq_some_iff, get?_ofList] at he
  exact mem_named.mp (List.mem_of_getLast? he)

theorem mem_keys_ofList {l : List (String × α)} {n : String} :
    n ∈ (ofList l).keys ↔ n ∈ l.map (·.1) := by
  rw [mem_keys_iff, get?_ofList]
  constructor
  · rintro ⟨a, ha⟩
    exact List.mem_map_of_mem (f := (·.1)) (mem_named.mp (List.mem_of_getLast? ha))
  · intro hn
    obtain ⟨e, he, rfl⟩ := List.mem_map.mp hn
    have hne : named e.1 l ≠ [] := List.ne_nil_of_mem (mem_named.mpr he)
    exact ⟨_, List.getLast?_eq_some_getLast hne⟩

variable {k n : String} {a : α} {l : List (String × α)}

theorem findEntry_map (f : α → β) (k : String) (l : List (String × α)) :
    findEntry k (l.map fun e => (e.1, f e.2)) = (findEntry k l).map f := by
  induction l with
  | nil => rfl
  | cons e l ih =>
      simp only [List.map_cons, findEntry]
      split
      · rfl
      · exact ih

theorem mem_of_findEntry (h : findEntry k l = some a) : (k, a) ∈ l := by
  induction l with
  | nil => cases h
  | cons e l ih =>
      simp only [findEntry] at h
      split at h
      · rename_i hk
        obtain rfl := Option.some.inj h
        rw [hk]
        exact List.mem_cons_self ..
      · exact List.mem_cons_of_mem _ (ih h)

theorem findEntry_eq_none_iff : findEntry k l = none ↔ k ∉ l.map (·.1) := by
  induction l with
  | nil => simp [findEntry]
  | cons e l ih =>
      simp only [findEntry, List.map_cons, List.mem_cons, not_or]
      split
      · rename_i hk
        simp [hk]
      · rename_i hk
        simp [hk, ih]

theorem findEntry_of_mem (hl : (l.map (·.1)).Nodup) (h : (k, a) ∈ l) :
    findEntry k l = some a := by
  induction l with
  | nil => cases h
  | cons e l ih =>
      obtain ⟨he, hl⟩ := List.nodup_cons.mp hl
      rcases List.mem_cons.mp h with rfl | h
      · simp [findEntry]
      · have hk : k ≠ e.1 := by
          rintro rfl
          exact he (List.mem_map.mpr ⟨_, h, rfl⟩)
        rw [findEntry, if_neg hk, ih hl h]

theorem named_of_nodup (hl : (l.map (·.1)).Nodup) (n : String) :
    named n l = (findEntry n l).toList := by
  induction l with
  | nil => rfl
  | cons e l ih =>
      obtain ⟨he, hl⟩ := List.nodup_cons.mp hl
      rw [named_cons, ih hl, findEntry]
      by_cases hn : e.1 = n
      · have hnone : findEntry n l = none := findEntry_eq_none_iff.mpr (hn ▸ he)
        rw [if_pos hn, if_pos hn.symm, hnone]
        rfl
      · rw [if_neg hn, if_neg (Ne.symm hn)]

theorem get?_ofList_of_nodup (hl : (l.map (·.1)).Nodup) (n : String) :
    (ofList l).get? n = findEntry n l := by
  rw [get?_ofList, named_of_nodup hl]
  cases findEntry n l <;> rfl

theorem get?_ofList_eq_some_iff (hl : (l.map (·.1)).Nodup) :
    (ofList l).get? n = some a ↔ (n, a) ∈ l := by
  rw [get?_ofList_of_nodup hl]
  exact ⟨mem_of_findEntry, findEntry_of_mem hl⟩

theorem keys_ordered (t : Table α) : t.keys.Pairwise (· < ·) :=
  List.pairwise_map.mpr t.ordered

theorem nodup_keys (t : Table α) : t.keys.Nodup := by
  refine t.keys_ordered.imp ?_
  rintro k _ hlt rfl
  exact String.lt_irrefl k hlt

theorem size_ofList (l : List (String × α)) : (ofList l).size = (l.map (·.1)).dedup.length := by
  have hperm : (ofList l).keys.Perm (l.map (·.1)).dedup :=
    (List.perm_ext_iff_of_nodup (nodup_keys _) (List.nodup_dedup _)).mpr fun _ =>
      mem_keys_ofList.trans List.mem_dedup.symm
  rw [← hperm.length_eq, keys, List.length_map]
  rfl

theorem get?_ofList_concat (l : List (String × α)) (e : String × α) :
    (ofList (l ++ [e])).get? e.1 = some e.2 := by
  rw [ofList, List.foldl_append, List.foldl_cons, List.foldl_nil, get?_insert, if_pos rfl]

theorem findEntry_filter_ne (h : n ≠ k) (l : List (String × α)) :
    findEntry n (l.filter (·.1 ≠ k)) = findEntry n l := by
  induction l with
  | nil => rfl
  | cons e l ih =>
      by_cases he : e.1 = k
      · have hn : n ≠ e.1 := he ▸ h
        rw [List.filter_cons_of_neg (by simpa using he), ih, findEntry, if_neg hn]
      · rw [List.filter_cons_of_pos (by simpa using he), findEntry, findEntry, ih]

theorem perm_insertEntry (k : String) (a : α) (h : k ∉ l.map (·.1)) :
    (insertEntry k a l).Perm ((k, a) :: l) := by
  induction l with
  | nil => exact .refl _
  | cons e l ih =>
      simp only [List.map_cons, List.mem_cons, not_or] at h
      rw [insertEntry]
      split
      · exact .refl _
      · split
        · exact ((ih h.2).cons e).trans (.swap ..)
        · rename_i hlt hgt
          exact absurd (String.le_antisymm (String.not_lt.mp hgt) (String.not_lt.mp hlt)) h.1

theorem map_congr {t : Table α} {f g : String → α → β}
    (h : ∀ n a, t.get? n = some a → f n a = g n a) : t.map f = t.map g := by
  refine ext_get? fun n => ?_
  rw [get?_map, get?_map]
  cases hn : t.get? n with
  | none => rfl
  | some a => exact congrArg some (h n a hn)

theorem map_of_isEmpty {t : Table α} {f : String → α → β}
    (h : t.isEmpty = true) : t.map f = .empty := by
  have hentries : t.entries = [] := List.isEmpty_iff.mp h
  exact ext_entries (by simp [map, hentries, empty])

end GameTimeline.Table

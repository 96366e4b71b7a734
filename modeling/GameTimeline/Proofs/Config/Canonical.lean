import GameTimeline.Proofs.Json.Compact
import GameTimeline.Proofs.Yaml.Document
import GameTimeline.Config.Layers

namespace GameTimeline.Config

open Json (Same Proper)

variable {a a' b b' : Json} {as bs : List (String × Json)} {layers layers' : List Json}

theorem findEntry_mergeMembers (hb : (bs.map (·.1)).Nodup) (as : List (String × Json))
    (k : String) : Table.findEntry k (mergeMembers as bs) =
      ((Table.findEntry k bs).map (merge ((Table.findEntry k as).getD .null))).or
        (Table.findEntry k as) := by
  induction bs generalizing as with
  | nil => rfl
  | cons e r ih =>
      obtain ⟨n, b⟩ := e
      obtain ⟨hn, hr⟩ := List.nodup_cons.mp hb
      rw [mergeMembers, ih hr, Table.findEntry_insertEntry, Table.findEntry]
      by_cases hk : k = n
      · have hnone : Table.findEntry n r = none := Table.findEntry_eq_none_iff.mpr hn
        simp [hk, hnone]
      · simp only [if_neg hk, Table.findEntry_filter_ne hk]

theorem nodup_mergeMembers (ha : (as.map (·.1)).Nodup) (bs : List (String × Json)) :
    ((mergeMembers as bs).map (·.1)).Nodup := by
  induction bs generalizing as with
  | nil => exact ha
  | cons e r ih =>
      obtain ⟨n, b⟩ := e
      rw [mergeMembers]
      apply ih
      have hout : n ∉ (as.filter (·.1 ≠ n)).map (·.1) := by
        intro hmem
        obtain ⟨e, he, hname⟩ := List.mem_map.mp hmem
        simpa [hname] using (List.mem_filter.mp he).2
      have hperm := (Table.perm_insertEntry n (merge ((Table.findEntry n as).getD .null) b)
        hout).map (·.1)
      rw [hperm.nodup_iff]
      exact List.nodup_cons.mpr ⟨hout, ha.sublist (List.filter_sublist.map _)⟩

theorem merge_of_not_isObject (a : Json) (h : b.isObject = false) : merge a b = b := by
  cases b with
  | obj bs => cases h
  | _ => cases a <;> rfl

theorem proper_merge (ha : a.Proper) (hb : b.Proper) : (merge a b).Proper := by
  induction b using Json.induct generalizing a with
  | obj bs ih =>
      cases ha with
      | @obj as hanames has =>
          cases hb with
          | obj hnames hbs =>
          have hall := nodup_mergeMembers hanames bs
          refine .obj hall ?_
          intro m hm
          have hfind := Table.findEntry_of_mem hall hm
          rw [findEntry_mergeMembers hnames, Option.or_eq_some_iff] at hfind
          rcases hfind with hmerged | ⟨-, hold⟩
          · obtain ⟨x, hx, hmerge⟩ := Option.map_eq_some_iff.mp hmerged
            have hbase : ((Table.findEntry m.1 as).getD .null).Proper := by
              cases hy : Table.findEntry m.1 as with
              | none => exact .null
              | some y => exact Proper.findEntry has hy
            rw [← hmerge]
            exact ih _ (Table.mem_of_findEntry hx) hbase (Proper.findEntry hbs hx)
          · exact Proper.findEntry has hold
      | _ => exact hb
  | _ =>
      rw [merge_of_not_isObject _ rfl]
      exact hb

theorem same_merge (ha : a.Same a') (hb : b.Same b') (hp : b.Proper) (hp' : b'.Proper) :
    (merge a b).Same (merge a' b') := by
  induction b using Json.induct generalizing a a' b' with
  | obj bs ih =>
      cases ha with
      | @obj as as' hrel =>
          cases hb with
          | @obj _ bs' hrel' =>
          cases hp with
          | obj hnames hbs =>
          cases hp' with
          | obj hnames' hbs' =>
          refine .obj fun k => ?_
          rw [findEntry_mergeMembers hnames, findEntry_mergeMembers hnames']
          have hold := hrel k
          have hnew := hrel' k
          have hbase : ((Table.findEntry k as).getD .null).Same
              ((Table.findEntry k as').getD .null) := by
            revert hold
            cases Table.findEntry k as <;> cases Table.findEntry k as' <;> simp [Same.null]
          cases hx : Table.findEntry k bs with
          | none =>
              cases hy : Table.findEntry k bs' with
              | none => exact hold
              | some y => simp [hx, hy] at hnew
          | some x =>
              cases hy : Table.findEntry k bs' with
              | none => simp [hx, hy] at hnew
              | some y =>
                  have hsame : x.Same y := by simpa [hx, hy] using hnew
                  have hmerged := ih _ (Table.mem_of_findEntry hx) hbase hsame
                    (Proper.findEntry hbs hx) (Proper.findEntry hbs' hy)
                  exact .some hmerged
      | _ =>
          cases hb with
          | obj hrel => exact .obj hrel
  | _ =>
      have hobject := hb.isObject_eq
      rw [merge_of_not_isObject _ rfl, merge_of_not_isObject _ hobject.symm]
      exact hb

theorem proper_foldl_merge (ha : a.Proper) (h : ∀ j ∈ layers, j.Proper) :
    (layers.foldl merge a).Proper := by
  induction layers generalizing a with
  | nil => exact ha
  | cons j r ih =>
      obtain ⟨hj, hr⟩ := List.forall_mem_cons.mp h
      exact ih (proper_merge ha hj) hr

theorem same_foldl_merge (ha : a.Same a') (h : List.Forall₂ Same layers layers')
    (hp : ∀ j ∈ layers, j.Proper) (hp' : ∀ j ∈ layers', j.Proper) :
    (layers.foldl merge a).Same (layers'.foldl merge a') := by
  induction h generalizing a a' with
  | nil => exact ha
  | cons hsame _ ih =>
      obtain ⟨hj, hr⟩ := List.forall_mem_cons.mp hp
      obtain ⟨hj', hr'⟩ := List.forall_mem_cons.mp hp'
      exact ih (same_merge ha hsame hj hj') hr hr'

theorem proper_nil : (Json.obj []).Proper := .obj List.nodup_nil nofun

theorem same_nil : (Json.obj []).Same (.obj []) := .obj fun _ => .none

theorem proper_mergeAll (h : ∀ j ∈ layers, j.Proper) : (mergeAll layers).Proper :=
  proper_foldl_merge proper_nil h

theorem same_mergeAll (h : List.Forall₂ Same layers layers') (hp : ∀ j ∈ layers, j.Proper)
    (hp' : ∀ j ∈ layers', j.Proper) : (mergeAll layers).Same (mergeAll layers') :=
  same_foldl_merge same_nil h hp hp'

theorem canonicalText_eq_iff (ha : a.Proper) (ha' : a'.Proper) :
    canonicalText a = canonicalText a' ↔ a.Same a' := by
  rw [← Json.sorted_eq_iff ha ha']
  exact ⟨Json.compact_injective ha.sorted ha'.sorted, congrArg Json.compact⟩

theorem proper_of_mapM_parse {docs : List String} (h : docs.mapM Yaml.parse = .ok layers) :
    ∀ j ∈ layers, j.Proper := by
  have hread := mapM_eq_ok_iff.mp h
  clear h
  induction hread with
  | nil => exact List.forall_mem_nil _
  | cons hj _ ih => exact List.forall_mem_cons.mpr ⟨Yaml.proper_parse hj, ih⟩

theorem canonical_ofTexts_eq_iff {docs docs' : List String} {l l' : Loaded}
    (h : Loaded.ofTexts docs = .ok l) (h' : Loaded.ofTexts docs' = .ok l') :
    l.canonical = l'.canonical ↔ l.config.Same l'.config := by
  have hlayers {docs : List String} {l : Loaded} (h : Loaded.ofTexts docs = .ok l) :
      ∃ layers, (∀ j ∈ layers, j.Proper) ∧ Loaded.ofLayers layers = l := by
    rw [Loaded.ofTexts] at h
    cases hdocs : docs.mapM Yaml.parse with
    | error e =>
        rw [hdocs] at h
        cases h
    | ok layers =>
        rw [hdocs] at h
        exact ⟨layers, proper_of_mapM_parse hdocs, Except.ok.inj h⟩
  obtain ⟨layers, hp, rfl⟩ := hlayers h
  obtain ⟨layers', hp', rfl⟩ := hlayers h'
  exact canonicalText_eq_iff (proper_mergeAll hp) (proper_mergeAll hp')

theorem canonical_identifies (hp : ∀ j ∈ layers, j.Proper) (hp' : ∀ j ∈ layers', j.Proper) :
    ((Loaded.ofLayers layers).canonical = (Loaded.ofLayers layers').canonical ↔
      (Loaded.ofLayers layers).config.Same (Loaded.ofLayers layers').config) ∧
    (Loaded.ofLayers layers).hash =
      Digest.Sha256.hexOfText (Loaded.ofLayers layers).canonical ∧
    (List.Forall₂ Same layers layers' →
      (Loaded.ofLayers layers).canonical = (Loaded.ofLayers layers').canonical ∧
      (Loaded.ofLayers layers).hash = (Loaded.ofLayers layers').hash) := by
  have hiff := canonicalText_eq_iff (proper_mergeAll hp) (proper_mergeAll hp')
  refine ⟨hiff, rfl, fun hsame => ?_⟩
  have htext := hiff.mpr (same_mergeAll hsame hp hp')
  exact ⟨htext, congrArg Digest.Sha256.hexOfText htext⟩

theorem canonical_identifies_reordered :
    let base := Json.obj [("b", .str "\"\n"), ("a", .obj [("y", .nat 1), ("x", .null)])]
    let reordered := Json.obj [("a", .obj [("x", .null), ("y", .nat 1)]), ("b", .str "\"\n")]
    let top := Json.obj [("a", .obj [("x", .bool true)])]
    (∀ j ∈ [base, top], j.Proper) ∧ (∀ j ∈ [reordered, top], j.Proper) ∧
    (Loaded.ofLayers [base, top]).hash = (Loaded.ofLayers [reordered, top]).hash ∧
    (Loaded.ofLayers [base, top]).canonical ≠ (Loaded.ofLayers [top]).canonical := by
  intro base reordered top
  have hinner : (Json.obj [("y", .nat 1), ("x", .null)]).Proper :=
    .obj (by decide) (List.forall_mem_cons.mpr ⟨.num rfl, List.forall_mem_singleton.mpr .null⟩)
  have hinner' : (Json.obj [("x", .null), ("y", .nat 1)]).Proper :=
    .obj (by decide) (List.forall_mem_cons.mpr ⟨.null, List.forall_mem_singleton.mpr (.num rfl)⟩)
  have hbase : base.Proper :=
    .obj (by decide) (List.forall_mem_cons.mpr ⟨.str _, List.forall_mem_singleton.mpr hinner⟩)
  have hreordered : reordered.Proper :=
    .obj (by decide) (List.forall_mem_cons.mpr ⟨hinner', List.forall_mem_singleton.mpr (.str _)⟩)
  have htop : top.Proper :=
    .obj (by decide) (List.forall_mem_singleton.mpr
      (.obj (by decide) (List.forall_mem_singleton.mpr (.bool true))))
  have hlayers : ∀ j ∈ [base, top], j.Proper :=
    List.forall_mem_cons.mpr ⟨hbase, List.forall_mem_singleton.mpr htop⟩
  have hlayers' : ∀ j ∈ [reordered, top], j.Proper :=
    List.forall_mem_cons.mpr ⟨hreordered, List.forall_mem_singleton.mpr htop⟩
  have hsame : base.Same reordered := (Json.sorted_eq_iff hbase hreordered).mp rfl
  have hsame' : top.Same top := (Json.sorted_eq_iff htop htop).mp rfl
  refine ⟨hlayers, hlayers', ?_, ?_⟩
  · exact ((canonical_identifies hlayers hlayers').2.2 (.cons hsame (.cons hsame' .nil))).2
  · rw [Ne, (canonical_identifies hlayers (List.forall_mem_singleton.mpr htop)).1]
    intro h
    have hb := Json.obj_same_iff.mp h "b"
    cases hb

end GameTimeline.Config

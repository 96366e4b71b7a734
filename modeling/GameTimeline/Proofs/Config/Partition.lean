import GameTimeline.Proofs.Config.Usage
import GameTimeline.Proofs.Json.Descent

namespace GameTimeline.Config

open Json (At)
open Json.Pointer (ofTokens tokens?)

variable {mode : Mode} {path : List String} {ms : List (String × Json)} {l : String} {v : Json}

instance (mode : Mode) (path : List String) : Decidable (Consumed mode path) :=
  inferInstanceAs (Decidable (∃ p ∈ consumedPaths mode, p <+: path))

theorem unused_ordered (mode : Mode) (config : Json) :
    (unused mode config).Pairwise (· < ·) := by
  rw [unused, sortPointers, Table.keys, List.pairwise_map]
  exact Table.ordered _

theorem eq_pointer_iff (hl : l ∈ unused mode (.obj ms)) :
    l = String.ofList (ofTokens path) ↔ tokens? l.toList = some path := by
  obtain ⟨p, v, -, -, -, rfl⟩ := mem_unused_iff.mp hl
  rw [String.toList_ofList, Json.Pointer.tokens?_ofTokens, Option.some.injEq]
  constructor
  · intro h
    have hpath := congrArg String.toList h
    rw [String.toList_ofList, String.toList_ofList] at hpath
    exact Json.Pointer.ofTokens_injective hpath
  · rintro rfl
    rfl

theorem pointer_mem_unused_iff (hv : (Json.obj ms).At path v) (hscalar : v.isScalar = true) :
    String.ofList (ofTokens path) ∈ unused mode (.obj ms) ↔ ¬ Consumed mode path := by
  constructor
  · intro hl
    obtain ⟨p, -, -, -, hnot, hp⟩ := mem_unused_iff.mp hl
    have hpath := congrArg String.toList hp
    rw [String.toList_ofList, String.toList_ofList] at hpath
    rwa [Json.Pointer.ofTokens_injective hpath]
  · intro hnot
    exact mem_unused_iff.mpr ⟨path, v, hv, hscalar, hnot, rfl⟩

theorem countP_unused (hv : (Json.obj ms).At path v) (hscalar : v.isScalar = true) :
    (unused mode (.obj ms)).countP (fun l => tokens? l.toList = some path) =
      if Consumed mode path then 0 else 1 := by
  have hcount : (unused mode (.obj ms)).countP (fun l => tokens? l.toList = some path) =
      (unused mode (.obj ms)).count (String.ofList (ofTokens path)) := by
    refine List.countP_congr fun l hl => ?_
    rw [decide_eq_true_eq, ← eq_pointer_iff hl, beq_iff_eq]
  have hnodup : (unused mode (.obj ms)).Nodup := by
    refine (unused_ordered mode _).imp ?_
    rintro l _ hlt rfl
    exact String.lt_irrefl l hlt
  rw [hcount, hnodup.count]
  simp only [pointer_mem_unused_iff hv hscalar, ite_not]

theorem reportUnused_eq (mode : Mode) (policy : UnusedPolicy) (config : Json) :
    reportUnused mode policy config =
      if policy = .fail ∧ unused mode config ≠ [] then .error ⟨⟨mode, unused mode config⟩⟩
      else .ok ⟨mode, unused mode config⟩ := by
  simp only [reportUnused, UsageReport.isClean, List.isEmpty_iff, ne_eq]

theorem unused_partition (hp : (Json.obj ms).Proper) (ha : (Json.obj ms).Addressable)
    (mode : Mode) :
    (unused mode (.obj ms)).Pairwise (fun l r => Text.utf8 l < Text.utf8 r) ∧
    (∀ l ∈ unused mode (.obj ms),
      ∃ v, (Json.obj ms).pointer? l = some v ∧ v.isScalar = true) ∧
    (∀ path v, (Json.obj ms).descend path = some v → v.isScalar = true →
      (unused mode (.obj ms)).countP (fun l => tokens? l.toList = some path) =
        if Consumed mode path then 0 else 1) ∧
    ∀ policy, reportUnused mode policy (.obj ms) =
      if policy = .fail ∧ unused mode (.obj ms) ≠ [] then
        .error ⟨⟨mode, unused mode (.obj ms)⟩⟩
      else .ok ⟨mode, unused mode (.obj ms)⟩ := by
  refine ⟨(unused_ordered mode _).imp Text.utf8_lt_utf8, ?_, ?_, (reportUnused_eq mode · _)⟩
  · intro l hl
    obtain ⟨path, v, hv, hscalar, -, rfl⟩ := mem_unused_iff.mp hl
    rw [← Json.descend_eq_some_iff hp ha, ← Json.pointer?_ofTokens] at hv
    exact ⟨v, hv, hscalar⟩
  · intro path v hv
    exact countP_unused (Json.at_of_descend hv)

theorem unused_partition_names :
    let ms := [("", Json.nat 1), ("a/b", .obj [("~", .arr [.bool true, .null])]),
      ("fields", .arr [.str "gold"]), ("fieldsé", .str "")]
    (Json.obj ms).Proper ∧ (Json.obj ms).Addressable ∧
      (Json.obj ms).descend ["a/b", "~", "1"] = some .null ∧
      (unused .correct (.obj ms)).countP
        (fun l => tokens? l.toList = some ["a/b", "~", "1"]) = 1 ∧
      (∃ v, (Json.obj ms).pointer? "/a~1b/~0/1" = some v ∧ v.isScalar = true) ∧
      (unused .correct (.obj ms)).countP
        (fun l => tokens? l.toList = some ["fields", "0"]) = 0 := by
  intro ms
  have hp : (Json.obj ms).Proper := by
    refine .obj (by decide) ?_
    simp only [ms, List.forall_mem_cons]
    refine ⟨.num rfl, .obj (by decide) ?_, .arr ?_, .str _, List.forall_mem_nil _⟩
    · rw [List.forall_mem_singleton]
      refine .arr ?_
      rw [List.forall_mem_cons, List.forall_mem_singleton]
      exact ⟨.bool true, .null⟩
    · rw [List.forall_mem_singleton]
      exact .str "gold"
  have ha : (Json.obj ms).Addressable := by
    refine .obj ?_
    simp only [ms, List.forall_mem_cons]
    refine ⟨.scalar rfl, .obj ?_, .arr (by decide) ?_, .scalar rfl, List.forall_mem_nil _⟩
    · rw [List.forall_mem_singleton]
      refine .arr (by decide) ?_
      rw [List.forall_mem_cons, List.forall_mem_singleton]
      exact ⟨.scalar rfl, .scalar rfl⟩
    · rw [List.forall_mem_singleton]
      exact .scalar rfl
  obtain ⟨-, hresolves, hcount, -⟩ := unused_partition hp ha .correct
  have hnull : (Json.obj ms).descend ["a/b", "~", "1"] = some .null := rfl
  have hgold : (Json.obj ms).descend ["fields", "0"] = some (.str "gold") := rfl
  exact ⟨hp, ha, hnull, hcount _ _ hnull rfl, hresolves _ (by decide), hcount _ _ hgold rfl⟩

example : unused .correct (.obj [("", .nat 1), ("a/b", .obj [("~", .arr [.bool true, .null])]),
    ("fields", .arr [.str "gold"]), ("fieldsé", .str "")]) =
      ["/", "/a~1b/~0/0", "/a~1b/~0/1", "/fieldsé"] := by decide

end GameTimeline.Config

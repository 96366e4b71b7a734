import GameTimeline.Proofs.Json.Extensional
import GameTimeline.Yaml.Document

namespace GameTimeline

theorem Json.proper_float (x : Float) : (Json.float x).Proper := by
  rw [Json.float]
  split
  · rename_i hx
    exact .num hx
  · exact .null

namespace Yaml

open Json (Proper)

structure ProperMembers (ms : List (String × Json)) : Prop where
  ordered : ms.Pairwise fun a b => a.1 < b.1
  proper : ∀ m ∈ ms, m.2.Proper

namespace ProperMembers

variable {ms : List (String × Json)} {j : Json}

theorem nil : ProperMembers [] := ⟨.nil, List.forall_mem_nil _⟩

theorem insertEntry (h : ProperMembers ms) (hj : j.Proper) (name : String) :
    ProperMembers (Table.insertEntry name j ms) := by
  refine ⟨Table.insertEntry_ordered h.ordered, fun m hm => ?_⟩
  rcases Table.mem_insertEntry hm with rfl | hm
  · exact hj
  · exact h.proper m hm

theorem obj (h : ProperMembers ms) : (Json.obj ms).Proper :=
  .obj (Table.nodup_keys ⟨ms, h.ordered⟩) h.proper

end ProperMembers

namespace Value

mutual

theorem proper_toJson? : ∀ {v : Value} {j : Json}, v.toJson? = some j → j.Proper
  | .null, _, rfl => .null
  | .bool b, _, rfl => .bool b
  | .int _, _, rfl => .num rfl
  | .float x, _, rfl => Json.proper_float x
  | .text s, _, rfl => .str s
  | .sequence items, _, h => by
      obtain ⟨js, hjs, rfl⟩ := Option.map_eq_some_iff.mp h
      exact .arr (proper_itemsToJson? hjs)
  | .mapping entries, _, h => by
      obtain ⟨ms, hms, rfl⟩ := Option.map_eq_some_iff.mp h
      exact (properMembers_entriesToJson? .nil hms).obj
  | .tagged t v, _, h => by
      obtain ⟨j, hj, rfl⟩ := Option.map_eq_some_iff.mp h
      exact (ProperMembers.nil.insertEntry (proper_toJson? hj) ("!" ++ t)).obj

theorem proper_itemsToJson? : ∀ {vs : List Value} {js : List Json},
    itemsToJson? vs = some js → ∀ j ∈ js, j.Proper
  | [], _, rfl => List.forall_mem_nil _
  | v :: r, _, h => by
      simp only [itemsToJson?, Option.bind_eq_bind, Option.bind_eq_some_iff, Option.pure_def,
        Option.some.injEq] at h
      obtain ⟨j, hj, js, hjs, rfl⟩ := h
      exact List.forall_mem_cons.mpr ⟨proper_toJson? hj, proper_itemsToJson? hjs⟩

theorem properMembers_entriesToJson? : ∀ {es : List (Value × Value)}
    {done ms : List (String × Json)}, ProperMembers done → entriesToJson? done es = some ms →
      ProperMembers ms
  | [], _, _, hdone, rfl => hdone
  | (k, v) :: r, _, _, hdone, h => by
      simp only [entriesToJson?, Option.bind_eq_bind, Option.bind_eq_some_iff] at h
      obtain ⟨name, -, j, hj, hrest⟩ := h
      exact properMembers_entriesToJson? (hdone.insertEntry (proper_toJson? hj) name) hrest

end

end Value

theorem proper_parse {text : String} {j : Json} (h : parse text = .ok j) : j.Proper := by
  rw [parse] at h
  split at h
  · cases h
  · split at h
    · cases h
    · rename_i hj
      cases h
      exact Value.proper_toJson? hj

end Yaml

end GameTimeline

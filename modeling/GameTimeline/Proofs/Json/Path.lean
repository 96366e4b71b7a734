import GameTimeline.Json.Pointer
import Mathlib.Data.List.Basic

namespace GameTimeline.Json

theorem induct {P : Json → Prop} (null : P .null) (bool : ∀ b, P (.bool b)) (num : ∀ n, P (.num n))
    (str : ∀ s, P (.str s)) (arr : ∀ xs, (∀ x ∈ xs, P x) → P (.arr xs))
    (obj : ∀ ms, (∀ m ∈ ms, P m.2) → P (.obj ms)) (j : Json) : P j :=
  @Json.rec P (fun xs => ∀ x ∈ xs, P x) (fun ms => ∀ m ∈ ms, P m.2) (fun m => P m.2)
    null bool num str arr obj
    (List.forall_mem_nil _) (fun _ _ hx hxs => List.forall_mem_cons.mpr ⟨hx, hxs⟩)
    (List.forall_mem_nil _) (fun _ _ hm hms => List.forall_mem_cons.mpr ⟨hm, hms⟩)
    (fun _ _ h => h) j

inductive At : Json → List String → Json → Prop where
  | here {j : Json} : At j [] j
  | member {ms : List (String × Json)} {k : String} {x v : Json} {p : List String} :
      (k, x) ∈ ms → At x p v → At (.obj ms) (k :: p) v
  | item {xs : List Json} {i : Nat} {x v : Json} {p : List String} :
      xs[i]? = some x → At x p v → At (.arr xs) (Text.showNat i :: p) v

theorem At.append {j v w : Json} {p q : List String} (hp : j.At p v) (hq : v.At q w) :
    j.At (p ++ q) w := by
  induction hp with
  | here => exact hq
  | member hm _ ih => exact .member hm (ih hq)
  | item hi _ ih => exact .item hi (ih hq)

def isScalar : Json → Bool
  | .arr _ => false
  | .obj _ => false
  | _ => true

theorem at_iff_of_isScalar {j v : Json} {p : List String} (h : j.isScalar = true) :
    j.At p v ↔ p = [] ∧ v = j := by
  constructor
  · intro hv
    cases hv with
    | here => exact ⟨rfl, rfl⟩
    | member _ _ => cases h
    | item _ _ => cases h
  · rintro ⟨rfl, rfl⟩
    exact .here

namespace Pointer

variable {s t r : List Char} {p q : List String}

theorem slash_notMem_escape (t : List Char) : '/' ∉ escape t := by
  intro h
  obtain ⟨c, -, hc⟩ := List.mem_flatMap.mp h
  rw [escapeChar] at hc
  split at hc
  · revert hc
    decide
  · split at hc
    · revert hc
      decide
    · rename_i hslash
      exact hslash (List.mem_singleton.mp hc).symm

theorem unescape_escape (t : List Char) : unescape (escape t) = t := by
  induction t with
  | nil => rfl
  | cons c t ih =>
      rw [escape, List.flatMap_cons, escapeChar]
      split
      · rename_i h
        subst h
        exact congrArg ('~' :: ·) ih
      · rename_i htilde
        split
        · rename_i h
          subst h
          exact congrArg ('/' :: ·) ih
        · rw [List.singleton_append, unescape.eq_3 _ _ (fun _ h _ => htilde h)
            (fun _ h _ => htilde h)]
          exact congrArg (c :: ·) ih

theorem segments_of_notMem (h : '/' ∉ s) : segments s = [s] := by
  induction s with
  | nil => rfl
  | cons c s ih =>
      rw [List.mem_cons, not_or] at h
      obtain ⟨hc, hs⟩ := h
      rw [segments, if_neg (Ne.symm hc), ih hs]

theorem segments_append (h : '/' ∉ s) : segments (s ++ '/' :: r) = s :: segments r := by
  induction s with
  | nil => rw [List.nil_append, segments, if_pos rfl]
  | cons c s ih =>
      rw [List.mem_cons, not_or] at h
      obtain ⟨hc, hs⟩ := h
      rw [List.cons_append, segments, if_neg (Ne.symm hc), ih hs]

def ofTokens (p : List String) : List Char := p.flatMap fun t => '/' :: escape t.toList

theorem ofTokens_cons (t : String) (p : List String) :
    ofTokens (t :: p) = '/' :: (escape t.toList ++ ofTokens p) := by
  rw [ofTokens, List.flatMap_cons]
  rfl

theorem ofTokens_append (p q : List String) : ofTokens (p ++ q) = ofTokens p ++ ofTokens q :=
  List.flatMap_append

theorem ofList_unescape_escape (t : String) : String.ofList (unescape (escape t.toList)) = t := by
  rw [unescape_escape, String.ofList_toList]

theorem tokens?_append (p : List String) (r : List Char) : tokens? (ofTokens p ++ '/' :: r) =
    some (p ++ (segments r).map fun s => String.ofList (unescape s)) := by
  induction p with
  | nil => rfl
  | cons t p ih =>
      have hsegments (q : List Char) : segments (escape t.toList ++ '/' :: q) =
          escape t.toList :: segments q := segments_append (slash_notMem_escape _)
      cases p with
      | nil =>
          rw [ofTokens_cons]
          simp [ofTokens, tokens?, hsegments, ofList_unescape_escape]
      | cons u p =>
          rw [ofTokens_cons] at ih
          simp only [List.cons_append, List.append_assoc, tokens?, Option.some.injEq] at ih
          rw [ofTokens_cons, ofTokens_cons]
          simp [tokens?, hsegments, ofList_unescape_escape, ih]

theorem tokens?_ofTokens (p : List String) : tokens? (ofTokens p) = some p := by
  rcases List.eq_nil_or_concat p with rfl | ⟨p, t, rfl⟩
  · rfl
  · have hlast : ofTokens [t] = '/' :: escape t.toList := by
      rw [ofTokens_cons]
      exact congrArg ('/' :: ·) (List.append_nil _)
    rw [List.concat_eq_append, ofTokens_append, hlast, tokens?_append,
      segments_of_notMem (slash_notMem_escape _), List.map_singleton, ofList_unescape_escape]

theorem ofTokens_injective : Function.Injective ofTokens := by
  intro p q h
  have hread := congrArg tokens? h
  rw [tokens?_ofTokens, tokens?_ofTokens] at hread
  exact Option.some.inj hread

end Pointer

end GameTimeline.Json

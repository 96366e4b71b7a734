import GameTimeline.Config.Usage
import GameTimeline.Proofs.Json.Path
import GameTimeline.Proofs.Table
import GameTimeline.Proofs.Text.Encoding

namespace GameTimeline.Config

open Json (At)
open Json.Pointer (ofTokens)

variable {mode : Mode} {parent : List Char} {path : List String} {ms : List (String × Json)}

def consumedPaths (mode : Mode) : List (List String) :=
  (consumed mode).filterMap fun p => Json.Pointer.tokens? p.toList

def Consumed (mode : Mode) (path : List String) : Prop := ∃ p ∈ consumedPaths mode, p <+: path

def Accounted (mode : Mode) (path : List String) : Prop :=
  ∃ p ∈ consumedPaths mode, p <+: path ∨ path <+: p ∧ path ≠ p

instance (mode : Mode) (path : List String) : Decidable (Accounted mode path) :=
  inferInstanceAs (Decidable (∃ p ∈ consumedPaths mode, p <+: path ∨ path <+: p ∧ path ≠ p))

theorem consumed_eq (mode : Mode) :
    (consumed mode).map String.toList = (consumedPaths mode).map ofTokens := by
  cases mode <;> decide

theorem ofTokens_ne_of_mem {p : List String} (hp : p ∈ consumedPaths mode) :
    ofTokens p ≠ ['/'] := by
  revert p
  cases mode <;> decide

theorem leadsTo_chars_iff {pointer leaf : List Char} (h : pointer ≠ ['/']) :
    leadsTo pointer leaf = true ↔ leaf = pointer ∨ pointer ++ ['/'] <+: leaf := by
  simp only [leadsTo, Bool.or_eq_true, Bool.and_eq_true, decide_eq_true_eq, h, false_or,
    List.isPrefixOf_iff_prefix]
  refine or_congr_right ⟨?_, ?_⟩
  · rintro ⟨⟨r, rfl⟩, hslice⟩
    obtain ⟨s, rfl⟩ := (Text.slice?_encode_iff (by decide)).mp hslice
    exact ⟨s, List.append_assoc ..⟩
  · rintro ⟨s, rfl⟩
    rw [List.append_assoc]
    exact ⟨⟨_, rfl⟩, (Text.slice?_encode_iff (by decide)).mpr ⟨s, rfl⟩⟩

theorem leadsTo_iff {p q : List String} (hp : ofTokens p ≠ ['/']) :
    leadsTo (ofTokens p) (ofTokens q) = true ↔ p <+: q := by
  rw [leadsTo_chars_iff hp]
  constructor
  · rintro (h | ⟨r, hr⟩)
    · exact Json.Pointer.ofTokens_injective h ▸ List.prefix_rfl
    · have hread := congrArg Json.Pointer.tokens? hr
      rw [List.append_assoc, List.singleton_append, Json.Pointer.tokens?_append,
        Json.Pointer.tokens?_ofTokens] at hread
      exact ⟨_, Option.some.inj hread⟩
  · rintro ⟨s, rfl⟩
    cases s with
    | nil =>
        rw [List.append_nil]
        exact .inl rfl
    | cons t s =>
        rw [Json.Pointer.ofTokens_append, Json.Pointer.ofTokens_cons]
        exact .inr ⟨_, List.append_assoc ..⟩

theorem isConsumed_iff : isConsumed mode (ofTokens path) = true ↔ Consumed mode path := by
  have hpointers : isConsumed mode (ofTokens path) =
      ((consumed mode).map String.toList).any fun p => leadsTo p (ofTokens path) := by
    rw [isConsumed, List.any_map]
    rfl
  rw [hpointers, consumed_eq, List.any_map, List.any_eq_true]
  exact exists_congr fun p => and_congr_right fun hp => leadsTo_iff (ofTokens_ne_of_mem hp)

theorem leaves_of_isScalar {j : Json} (h : j.isScalar = true) (hparent : parent ≠ []) :
    leaves parent j = [parent] := by
  cases j with
  | arr xs => cases h
  | obj ms => cases h
  | _ => simp [leaves, hparent]

theorem memberLeaves_eq (parent : List Char) (ms : List (String × Json)) :
    memberLeaves parent ms = ms.flatMap fun m => leaves (childPointer parent m.1) m.2 := by
  induction ms with
  | nil => rw [memberLeaves, List.flatMap_nil]
  | cons m ms ih => rw [memberLeaves, ih, List.flatMap_cons]

theorem itemLeaves_eq (parent : List Char) (i : Nat) (xs : List Json) :
    itemLeaves parent i xs =
      (xs.zipIdx i).flatMap fun e => leaves (childPointer parent (Text.showNat e.2)) e.1 := by
  induction xs generalizing i with
  | nil => rw [itemLeaves, List.zipIdx_nil, List.flatMap_nil]
  | cons x xs ih => rw [itemLeaves, ih, List.zipIdx_cons, List.flatMap_cons]

theorem childPointer_ne_nil (parent : List Char) (t : String) : childPointer parent t ≠ [] := by
  rw [childPointer]
  exact List.append_ne_nil_of_right_ne_nil _ (List.cons_ne_nil _ _)

theorem childPointer_append (parent : List Char) (t : String) (p : List String) :
    childPointer parent t ++ ofTokens p = parent ++ ofTokens (t :: p) := by
  rw [childPointer, Json.Pointer.ofTokens_cons, List.append_assoc, List.cons_append]

def PointsToScalar (parent : List Char) (j : Json) (l : List Char) : Prop :=
  ∃ p v, j.At p v ∧ v.isScalar = true ∧ l = parent ++ ofTokens p

theorem mem_leaves_of_isScalar {j : Json} (h : j.isScalar = true) {parent l : List Char}
    (hparent : parent ≠ []) : l ∈ leaves parent j ↔ PointsToScalar parent j l := by
  rw [leaves_of_isScalar h hparent, List.mem_singleton]
  simp only [PointsToScalar, Json.at_iff_of_isScalar h]
  constructor
  · rintro rfl
    exact ⟨[], j, ⟨rfl, rfl⟩, h, (List.append_nil _).symm⟩
  · rintro ⟨p, v, ⟨rfl, rfl⟩, -, rfl⟩
    exact List.append_nil _

theorem mem_memberLeaves_iff {parent l : List Char}
    (ih : ∀ m ∈ ms, ∀ {parent l}, parent ≠ [] →
      (l ∈ leaves parent m.2 ↔ PointsToScalar parent m.2 l)) :
    l ∈ memberLeaves parent ms ↔ PointsToScalar parent (.obj ms) l := by
  rw [memberLeaves_eq, List.mem_flatMap]
  constructor
  · rintro ⟨⟨k, x⟩, hx, hl⟩
    obtain ⟨p, v, hv, hscalar, rfl⟩ := (ih _ hx (childPointer_ne_nil _ _)).mp hl
    exact ⟨_, v, .member hx hv, hscalar, childPointer_append ..⟩
  · rintro ⟨p, v, hv, hscalar, rfl⟩
    cases hv with
    | here => cases hscalar
    | member hx hv =>
        refine ⟨_, hx, (ih _ hx (childPointer_ne_nil _ _)).mpr ?_⟩
        exact ⟨_, v, hv, hscalar, (childPointer_append ..).symm⟩

theorem mem_itemLeaves_iff {xs : List Json} {parent l : List Char}
    (ih : ∀ x ∈ xs, ∀ {parent l}, parent ≠ [] →
      (l ∈ leaves parent x ↔ PointsToScalar parent x l)) :
    l ∈ itemLeaves parent 0 xs ↔ PointsToScalar parent (.arr xs) l := by
  rw [itemLeaves_eq, List.mem_flatMap]
  constructor
  · rintro ⟨⟨x, i⟩, hx, hl⟩
    have hi : xs[i]? = some x := List.mem_zipIdx_iff_getElem?.mp hx
    obtain ⟨p, v, hv, hscalar, rfl⟩ :=
      (ih x (List.mem_of_getElem? hi) (childPointer_ne_nil _ _)).mp hl
    exact ⟨_, v, .item hi hv, hscalar, childPointer_append ..⟩
  · rintro ⟨p, v, hv, hscalar, rfl⟩
    cases hv with
    | here => cases hscalar
    | item hi hv =>
        rename_i i x p
        refine ⟨(x, i), List.mem_zipIdx_iff_getElem?.mpr hi, ?_⟩
        apply (ih x (List.mem_of_getElem? hi) (childPointer_ne_nil _ _)).mpr
        exact ⟨p, v, hv, hscalar, (childPointer_append ..).symm⟩

theorem mem_leaves_iff {j : Json} : ∀ {parent l : List Char}, parent ≠ [] →
    (l ∈ leaves parent j ↔ PointsToScalar parent j l) := by
  induction j using Json.induct with
  | arr xs ih => exact fun _ => mem_itemLeaves_iff ih
  | obj ms ih => exact fun _ => mem_memberLeaves_iff ih
  | _ => exact mem_leaves_of_isScalar rfl

theorem mem_sortPointers {pointers : List (List Char)} {l : String} :
    l ∈ sortPointers pointers ↔ l ∈ pointers.map String.ofList := by
  simp only [sortPointers, Table.const, Table.mem_keys_ofList, List.map_map, Function.comp_def]

theorem mem_unused_iff {l : String} : l ∈ unused mode (.obj ms) ↔
    ∃ path v, (Json.obj ms).At path v ∧ v.isScalar = true ∧ ¬ Consumed mode path ∧
      l = String.ofList (ofTokens path) := by
  have hleaves (l : List Char) : l ∈ leaves [] (.obj ms) ↔ PointsToScalar [] (.obj ms) l :=
    mem_memberLeaves_iff fun _ _ => mem_leaves_iff
  rw [unused, mem_sortPointers, List.mem_map]
  simp only [List.mem_filter, hleaves, Bool.not_eq_true']
  constructor
  · rintro ⟨_, ⟨⟨path, v, hv, hscalar, rfl⟩, hnot⟩, rfl⟩
    refine ⟨path, v, hv, hscalar, fun hconsumed => ?_, rfl⟩
    rw [List.nil_append, isConsumed_iff.mpr hconsumed] at hnot
    cases hnot
  · rintro ⟨path, v, hv, hscalar, hnot, rfl⟩
    refine ⟨_, ⟨⟨path, v, hv, hscalar, rfl⟩, ?_⟩, rfl⟩
    exact Bool.eq_false_of_not_eq_true fun h => hnot (isConsumed_iff.mp h)

theorem unused_eq_nil_iff : unused mode (.obj ms) = [] ↔
    ∀ path v, (Json.obj ms).At path v → v.isScalar = true → Consumed mode path := by
  simp only [List.eq_nil_iff_forall_not_mem, mem_unused_iff]
  constructor
  · intro h path v hv hscalar
    by_contra hnot
    exact h _ ⟨path, v, hv, hscalar, hnot, rfl⟩
  · rintro h _ ⟨path, v, hv, hscalar, hnot, -⟩
    exact hnot (h path v hv hscalar)

theorem reportUnused_fail_ok_iff {config : Json} :
    (∃ r, reportUnused mode .fail config = .ok r) ↔ unused mode config = [] := by
  by_cases h : unused mode config = []
  · simp [reportUnused, UsageReport.isClean, h]
  · simp [reportUnused, UsageReport.isClean, h]

def KeyAt (config : Json) (path : List String) (v : Json) : Prop :=
  ∃ p ms k, config.At p (.obj ms) ∧ (k, v) ∈ ms ∧ path = p ++ [k]

theorem KeyAt.stands {config v : Json} (h : KeyAt config path v) : config.At path v := by
  obtain ⟨p, ms, k, hp, hk, rfl⟩ := h
  exact hp.append (.member hk .here)

theorem accounted_of_consumed {p q : List String} (h : Consumed mode (p ++ q)) :
    Accounted mode p := by
  obtain ⟨c, hc, hprefix⟩ := h
  refine ⟨c, hc, ?_⟩
  rcases List.prefix_or_prefix_of_prefix hprefix (List.prefix_append p q) with hbelow | habove
  · exact .inl hbelow
  · by_cases heq : p = c
    · exact .inl (heq ▸ List.prefix_rfl)
    · exact .inr ⟨habove, heq⟩

theorem strict_passes_scalars (mode : Mode) (ms : List (String × Json)) :
    ((∃ r, reportUnused mode .fail (.obj ms) = .ok r) ↔
      ∀ path v, (Json.obj ms).At path v → v.isScalar = true → Consumed mode path) ∧
    ((∃ r, reportUnused mode .fail (.obj ms) = .ok r) →
      ∀ path v, KeyAt (.obj ms) path v →
        Accounted mode path ∨ ∀ q w, v.At q w → w.isScalar = false) := by
  have hexact : (∃ r, reportUnused mode .fail (.obj ms) = .ok r) ↔
      ∀ path v, (Json.obj ms).At path v → v.isScalar = true → Consumed mode path :=
    reportUnused_fail_ok_iff.trans unused_eq_nil_iff
  refine ⟨hexact, ?_⟩
  intro hok path v hkey
  by_cases hscalar : ∃ q w, v.At q w ∧ w.isScalar = true
  · obtain ⟨q, w, hw, hscalar⟩ := hscalar
    exact .inl (accounted_of_consumed (hexact.mp hok _ w (hkey.stands.append hw) hscalar))
  · right
    intro q w hw
    by_contra h
    exact hscalar ⟨q, w, hw, Bool.eq_true_of_not_eq_false h⟩

theorem strict_passes_scalars_session :
    ∃ ms : List (String × Json), (∃ r, reportUnused .correct .fail (.obj ms) = .ok r) ∧
      KeyAt (.obj ms) ["fields", "0", "name"] (.str "gold") ∧
      KeyAt (.obj ms) ["session"] (.obj [("participant", .nat 4)]) ∧
      Accounted .correct ["fields", "0", "name"] ∧ Accounted .correct ["session"] := by
  let field := Json.obj [("name", .str "gold")]
  let session := Json.obj [("participant", .nat 4)]
  let ms := [("fields", .arr [field]), ("session", session)]
  have hok : ∃ r, reportUnused .correct .fail (.obj ms) = .ok r := ⟨_, rfl⟩
  have hname : KeyAt (.obj ms) ["fields", "0", "name"] (.str "gold") :=
    ⟨["fields", "0"], _, "name",
      .member (List.mem_cons_self ..) (.item (i := 0) (x := field) rfl .here),
      List.mem_cons_self .., rfl⟩
  have hsession : KeyAt (.obj ms) ["session"] session :=
    ⟨[], ms, "session", .here, List.mem_cons_of_mem _ (List.mem_cons_self ..), rfl⟩
  have haccounted := (strict_passes_scalars .correct ms).2 hok
  refine ⟨ms, hok, hname, hsession, ?_, ?_⟩
  · exact (haccounted _ _ hname).resolve_right fun h => nomatch h [] _ .here
  · refine (haccounted _ _ hsession).resolve_right fun h => ?_
    exact nomatch h ["participant"] _ (.member (List.mem_cons_self ..) .here)

/-- An empty section has no leaf, so a misspelled name of one is not noticed. -/
theorem strict_overlooks_empty_section :
    reportUnused .correct .fail (.obj [("reconcil", .obj [])]) = .ok ⟨.correct, []⟩ ∧
      KeyAt (.obj [("reconcil", .obj [])]) ["reconcil"] (.obj []) ∧
      ¬ Accounted .correct ["reconcil"] := by
  refine ⟨rfl, ⟨[], _, "reconcil", .here, List.mem_cons_self .., rfl⟩, ?_⟩
  decide

end GameTimeline.Config

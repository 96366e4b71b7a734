import GameTimeline.Traversal
import Mathlib.Algebra.Group.Nat.Defs
import Mathlib.Data.List.Forall2
import Mathlib.Data.List.Perm.Subperm

namespace GameTimeline

variable {α β ε : Type}

theorem mapM_eq_pure {m : Type → Type} [Monad m] [LawfulMonad m] {f : α → m β} {g : α → β}
    {l : List α} (h : ∀ a ∈ l, f a = pure (g a)) : l.mapM f = pure (l.map g) := by
  induction l with
  | nil => simp
  | cons a l ih =>
      have ha := h a (List.mem_cons_self ..)
      have hl := ih fun b hb => h b (List.mem_cons_of_mem _ hb)
      simp [List.mapM_cons, ha, hl]

theorem mapM_eq_some_iff {f : α → Option β} {l : List α} {r : List β} :
    l.mapM f = some r ↔ List.Forall₂ (fun a b => f a = some b) l r := by
  induction l generalizing r with
  | nil => simp [eq_comm]
  | cons a l ih =>
      simp only [List.mapM_cons, List.forall₂_cons_left_iff, ← ih, Option.bind_eq_bind,
        Option.bind_eq_some_iff, Option.pure_def, Option.some.injEq]
      constructor
      · rintro ⟨b, hb, bs, hbs, rfl⟩
        exact ⟨b, bs, hb, hbs, rfl⟩
      · rintro ⟨b, bs, hb, hbs, rfl⟩
        exact ⟨b, hb, bs, hbs, rfl⟩

theorem mapM_eq_ok_iff {f : α → Except ε β} {l : List α} {r : List β} :
    l.mapM f = .ok r ↔ List.Forall₂ (fun a b => f a = .ok b) l r := by
  induction l generalizing r with
  | nil => simp [pure, Except.pure, eq_comm]
  | cons a l ih =>
      rw [List.mapM_cons, List.forall₂_cons_left_iff]
      simp only [← ih]
      cases f a with
      | error x => simp [bind, Except.bind]
      | ok b =>
          cases l.mapM f with
          | error x => simp [bind, Except.bind]
          | ok bs => simp [bind, Except.bind, pure, Except.pure, eq_comm]

theorem mapM_eq_error_iff {f : α → Except ε β} {l : List α} {x : ε} :
    l.mapM f = .error x ↔ ∃ before a after, l = before ++ a :: after ∧
      (∀ b ∈ before, ∃ y, f b = .ok y) ∧ f a = .error x := by
  induction l with
  | nil => simp [pure, Except.pure]
  | cons a l ih =>
      rw [List.mapM_cons]
      cases ha : f a with
      | error y =>
          constructor
          · intro h
            cases h
            exact ⟨[], a, l, rfl, List.forall_mem_nil _, ha⟩
          · rintro ⟨before, b, after, hl, hbefore, hb⟩
            cases before with
            | nil =>
                cases hl
                cases ha.symm.trans hb
                rfl
            | cons c before =>
                cases hl
                obtain ⟨z, hz⟩ := hbefore a (List.mem_cons_self ..)
                cases ha.symm.trans hz
      | ok y =>
          have hrest : (do let b ← Except.ok y; let bs ← l.mapM f; pure (b :: bs)) = .error x ↔
              l.mapM f = .error x := by
            cases l.mapM f <;> simp [bind, Except.bind, pure, Except.pure]
          rw [hrest, ih]
          constructor
          · rintro ⟨before, b, after, rfl, hbefore, hb⟩
            exact ⟨a :: before, b, after, rfl, List.forall_mem_cons.mpr ⟨⟨y, ha⟩, hbefore⟩, hb⟩
          · rintro ⟨before, b, after, hl, hbefore, hb⟩
            cases before with
            | nil =>
                cases hl
                cases ha.symm.trans hb
            | cons c before =>
                cases hl
                exact ⟨before, b, after, rfl, (List.forall_mem_cons.mp hbefore).2, hb⟩

theorem exists_of_mapM_eq_error {f : α → Except ε β} {l : List α} {x : ε}
    (h : l.mapM f = .error x) : ∃ a ∈ l, f a = .error x := by
  obtain ⟨before, a, after, rfl, -, ha⟩ := mapM_eq_error_iff.mp h
  exact ⟨a, List.mem_append_right _ (List.mem_cons_self ..), ha⟩

theorem seq_eq_ok_iff {x y : Except ε Unit} :
    (do x; y) = .ok () ↔ x = .ok () ∧ y = .ok () := by
  cases x with
  | error e => simp [bind, Except.bind]
  | ok a => simp [bind, Except.bind]

theorem getElem?_flatMap_of_forall {f : α → List β} {l : List α} {n q k : Nat}
    (h : ∀ a ∈ l, (f a).length = n) (hk : k < n) :
    (l.flatMap f)[q * n + k]? = l[q]?.bind fun a => (f a)[k]? := by
  induction l generalizing q with
  | nil => simp
  | cons a l ih =>
      obtain ⟨ha, hl⟩ := List.forall_mem_cons.mp h
      rw [List.flatMap_cons]
      cases q with
      | zero =>
          rw [Nat.zero_mul, Nat.zero_add, List.getElem?_append_left (by omega)]
          rfl
      | succ q =>
          have hplace : (q + 1) * n + k = (f a).length + (q * n + k) := by
            rw [ha, Nat.succ_mul]
            omega
          rw [hplace, List.getElem?_append_right (Nat.le_add_right ..), Nat.add_sub_cancel_left,
            ih hl]
          rfl

theorem pairwise_concat {f : α → Nat} {l : List α} {x : α}
    (h : l.Pairwise (f · < f ·)) (hx : ∀ y ∈ l, f y < f x) :
    (l ++ [x]).Pairwise (f · < f ·) := by
  refine List.pairwise_append.mpr ⟨h, List.pairwise_singleton .., fun y hy z hz => ?_⟩
  rw [List.mem_singleton.mp hz]
  exact hx y hy

theorem countP_eq_of_forall₂ {R : α → β → Prop} {p : α → Bool} {q : β → Bool}
    {l : List α} {l' : List β} (h : List.Forall₂ R l l') (hpq : ∀ a b, R a b → p a = q b) :
    l.countP p = l'.countP q := by
  induction h with
  | nil => rfl
  | cons hab _ ih => rw [List.countP_cons, List.countP_cons, ih, hpq _ _ hab]

theorem exists_of_forall₂ {R : α → β → Prop} {l : List α} {l' : List β}
    (h : List.Forall₂ R l l') {b : β} (hb : b ∈ l') : ∃ a ∈ l, R a b := by
  induction h with
  | nil => cases hb
  | cons hab _ ih =>
      rcases List.mem_cons.mp hb with rfl | hb
      · exact ⟨_, List.mem_cons_self .., hab⟩
      · obtain ⟨a, ha, hr⟩ := ih hb
        exact ⟨a, List.mem_cons_of_mem _ ha, hr⟩

theorem mapM_map_of_inverse {f : α → β} {g : β → Option α} {l : List α}
    (h : ∀ a ∈ l, g (f a) = some a) : (l.map f).mapM g = some l := by
  rw [List.mapM_map, mapM_eq_pure (f := g ∘ f) h, List.map_id']
  rfl

theorem forall_of_forall₂ {R : α → β → Prop} {P : α → Prop} {Q : β → Prop} {l : List α}
    {l' : List β} (h : List.Forall₂ R l l') (hpq : ∀ a b, R a b → (P a ↔ Q b)) :
    (∀ a ∈ l, P a) ↔ ∀ b ∈ l', Q b := by
  induction h with
  | nil => simp
  | cons hab _ ih => simp [hpq _ _ hab, ih]

theorem pairwise_cons_of_head {f : α → Nat} {l : List α} {x : α}
    (h : l.Pairwise (f · > f ·)) (hx : ∀ e ∈ l.head?, f e < f x) :
    (x :: l).Pairwise (f · > f ·) := by
  refine List.pairwise_cons.mpr ⟨?_, h⟩
  cases l with
  | nil => exact fun _ he => nomatch he
  | cons e r =>
      have he : f e < f x := hx e rfl
      intro y hy
      rcases List.mem_cons.mp hy with rfl | hy
      · exact he
      · exact Nat.lt_trans ((List.pairwise_cons.mp h).1 y hy) he

theorem length_le_of_increasing {l : List Nat} (h : l.Pairwise (· < ·)) (lo n : Nat)
    (hl : ∀ x ∈ l, lo ≤ x ∧ x < lo + n) : l.length ≤ n := by
  have hsub : l ⊆ List.range' lo n := fun x hx => List.mem_range'_1.mpr (hl x hx)
  have hnodup : l.Nodup := h.imp Nat.ne_of_lt
  simpa using (hnodup.subperm hsub).length_le

theorem dropWhile_eq_filter {P : α → Bool} {l : List α}
    (h : l.Pairwise fun x y => P y = true → P x = true) : l.dropWhile P = l.filter (!P ·) := by
  induction l with
  | nil => rfl
  | cons a l ih =>
      obtain ⟨ha, hl⟩ := List.pairwise_cons.mp h
      by_cases hp : P a = true
      · simp [hp, ih hl]
      · have hall : ∀ x ∈ l, (!P x) = true := by
          intro x hx
          simpa using fun hpx => hp (ha x hx hpx)
        simp [hp, List.filter_eq_self.mpr hall]

theorem min?_filterMap (f : α → List Nat) (l : List α) :
    (l.filterMap fun a => (f a).min?).min? = (l.flatMap f).min? := by
  refine Option.ext fun x => ?_
  simp only [List.min?_eq_some_iff, List.mem_filterMap, List.mem_flatMap]
  constructor
  · rintro ⟨⟨a, ha, hx, -⟩, hle⟩
    refine ⟨⟨a, ha, hx⟩, ?_⟩
    rintro y ⟨b, hb, hy⟩
    cases hmin : (f b).min? with
    | none =>
        rw [List.min?_eq_none_iff.mp hmin] at hy
        cases hy
    | some z =>
        obtain ⟨hz, hleast⟩ := List.min?_eq_some_iff.mp hmin
        exact Nat.le_trans (hle z ⟨b, hb, hz, hleast⟩) (hleast y hy)
  · rintro ⟨⟨a, ha, hx⟩, hle⟩
    refine ⟨⟨a, ha, hx, fun y hy => hle y ⟨a, ha, hy⟩⟩, ?_⟩
    rintro y ⟨b, hb, hy, -⟩
    exact hle y ⟨b, hb, hy⟩

theorem countP_eq_add {p q r : α → Bool} {l : List α}
    (h : ∀ x ∈ l, p x = (q x || r x) ∧ (r x = true → q x = false)) :
    l.countP p = l.countP q + l.countP r := by
  induction l with
  | nil => rfl
  | cons x l ih =>
      obtain ⟨hx, hdisjoint⟩ := h x (List.mem_cons_self ..)
      rw [List.countP_cons, List.countP_cons, List.countP_cons, hx,
        ih fun y hy => h y (List.mem_cons_of_mem _ hy)]
      cases hr : r x with
      | false =>
          simp
          omega
      | true =>
          simp [hdisjoint hr]
          omega

theorem forall_of_countP_eq {p q : α → Bool} {l : List α}
    (hpq : ∀ x ∈ l, p x = true → q x = true) (h : l.countP p = l.countP q) :
    ∀ x ∈ l, q x = true → p x = true := by
  induction l with
  | nil => exact fun _ hx => nomatch hx
  | cons a l ih =>
      have hrest : ∀ x ∈ l, p x = true → q x = true := fun x hx => hpq x (List.mem_cons_of_mem _ hx)
      have hle : l.countP p ≤ l.countP q := List.countP_mono_left hrest
      have ha := hpq a (List.mem_cons_self ..)
      rw [List.countP_cons, List.countP_cons] at h
      intro x hx hqx
      rcases List.mem_cons.mp hx with rfl | hx
      · by_contra hp
        rw [if_neg hp, if_pos hqx] at h
        omega
      · refine ih hrest ?_ x hx hqx
        by_cases hp : p a = true
        · rw [if_pos hp, if_pos (ha hp)] at h
          omega
        · rw [if_neg hp] at h
          split at h <;> omega

theorem countP_isNone_eq_length_takeWhile {l : List (Option α)}
    (h : l.Pairwise fun x y => x ≠ none → y ≠ none) :
    l.countP Option.isNone = (l.takeWhile Option.isNone).length := by
  induction l with
  | nil => rfl
  | cons x l ih =>
      obtain ⟨hx, hl⟩ := List.pairwise_cons.mp h
      cases x with
      | none => simp [ih hl]
      | some a =>
          have hnone : l.countP Option.isNone = 0 := List.countP_eq_zero.mpr fun y hy => by
            simpa using hx y hy (by simp)
          simp [hnone]

theorem concat_eq_append_cons {l mid rest : List α} {x y : α}
    (h : l ++ [x] = mid ++ y :: rest) :
    l = mid ∧ x = y ∧ rest = [] ∨ ∃ rest', rest = rest' ++ [x] ∧ l = mid ++ y :: rest' := by
  rcases List.eq_nil_or_concat' rest with rfl | ⟨rest', z, rfl⟩
  · obtain ⟨hl, hx⟩ := List.append_inj' h rfl
    exact .inl ⟨hl, (List.cons.inj hx).1, rfl⟩
  · rw [← List.cons_append, ← List.append_assoc] at h
    obtain ⟨hl, hx⟩ := List.append_inj' h rfl
    obtain rfl := (List.cons.inj hx).1
    exact .inr ⟨rest', rfl, hl⟩

theorem history_unique {u u' l l' x y : List α}
    (h : u.reverse ++ x = u'.reverse ++ y) (hl : l <:+ u) (hl' : l' <:+ u')
    (hlength : l.length = l'.length) : l = l' := by
  obtain ⟨later, rfl⟩ := hl
  obtain ⟨later', rfl⟩ := hl'
  rw [List.reverse_append, List.reverse_append, List.append_assoc, List.append_assoc] at h
  exact List.reverse_injective (List.append_inj h (by simpa using hlength)).1

theorem exists_boundary {P : α → Prop} {x y : α} {l : List α} (hx : P x) (hy : y ∈ l)
    (hpy : ¬ P y) : ∃ l₁ a b l₂, x :: l = l₁ ++ a :: b :: l₂ ∧ P a ∧ ¬ P b := by
  induction l generalizing x with
  | nil => cases hy
  | cons z l ih =>
      by_cases hz : P z
      · rcases List.mem_cons.mp hy with rfl | hy
        · exact absurd hz hpy
        · obtain ⟨l₁, a, b, l₂, heq, ha, hb⟩ := ih hz hy
          exact ⟨x :: l₁, a, b, l₂, by rw [heq, List.cons_append], ha, hb⟩
      · exact ⟨[], x, z, l, rfl, hx, hz⟩

theorem le_or_le_of_neighbours {f : α → Nat} {l₁ l₂ : List α} {x w : α}
    (h : (l₁ ++ x :: w :: l₂).Pairwise (f · > f ·)) :
    ∀ z ∈ l₁ ++ x :: w :: l₂, f x ≤ f z ∨ f z ≤ f w := by
  obtain ⟨-, htail, hbefore⟩ := List.pairwise_append.mp h
  obtain ⟨-, htail⟩ := List.pairwise_cons.mp htail
  intro z hz
  rcases List.mem_append.mp hz with hz | hz
  · exact .inl (Nat.le_of_lt (hbefore z hz x (List.mem_cons_self ..)))
  · rcases List.mem_cons.mp hz with rfl | hz
    · exact .inl (Nat.le_refl _)
    · rcases List.mem_cons.mp hz with rfl | hz
      · exact .inr (Nat.le_refl _)
      · exact .inr (Nat.le_of_lt ((List.pairwise_cons.mp htail).1 z hz))

end GameTimeline

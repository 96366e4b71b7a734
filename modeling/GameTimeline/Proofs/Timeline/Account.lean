import GameTimeline.Proofs.Timeline.Record
import Mathlib.Computability.Language

open scoped Computability

namespace GameTimeline

namespace Provenance

def one (p : Provenance) : Language Provenance := {[p]}

def redone (k : Nat) : Language Provenance :=
  {w | ∃ j, 1 ≤ j ∧ j ≤ k - 1 ∧ w = List.replicate j .revised}

def turn (k : Nat) : Language Provenance :=
  one .observed + one .held + redone k * one .observed

def played (k : Nat) : Language Provenance :=
  (one .unresolved)∗ * (1 + one .observed * (turn k)∗)

def course (k : Nat) : Language Provenance := played k * (one .frozen)∗

variable {k : Nat} {w u : List Provenance}

theorem mem_one (p : Provenance) : [p] ∈ one p := rfl

theorem append_mem_kstar {l : Language Provenance} (hw : w ∈ l∗) (hu : u ∈ l) : w ++ u ∈ l∗ :=
  Set.mem_of_mem_of_subset (Language.append_mem_mul hw hu) (kstar_mul_le_kstar (a := l))

def spoken (k : Nat) : Language Provenance := (one .unresolved)∗ * (one .observed * (turn k)∗)

theorem spoken_start (hw : w ∈ (one .unresolved)∗) : w ++ [.observed] ∈ spoken k := by
  refine Language.append_mem_mul hw ?_
  have hnil := Language.append_mem_mul (mem_one .observed) (Language.nil_mem_kstar (turn k))
  rwa [List.append_nil] at hnil

theorem spoken_turn (hw : w ∈ spoken k) (hu : u ∈ turn k) : w ++ u ∈ spoken k := by
  obtain ⟨a, ha, b, hb, rfl⟩ := Language.mem_mul.mp hw
  obtain ⟨c, hc, d, hd, rfl⟩ := Language.mem_mul.mp hb
  rw [List.append_assoc, List.append_assoc]
  exact Language.append_mem_mul ha (Language.append_mem_mul hc (append_mem_kstar hd hu))

theorem observed_mem_turn : [.observed] ∈ turn k := .inl (.inl rfl)

theorem held_mem_turn : [.held] ∈ turn k := .inl (.inr rfl)

theorem redone_mem_turn {j : Nat} (hpos : 1 ≤ j) (hlt : j ≤ k - 1) :
    List.replicate j .revised ++ [.observed] ∈ turn k :=
  .inr (Language.append_mem_mul ⟨j, hpos, hlt, rfl⟩ (mem_one .observed))

theorem silent_mem_played (hw : w ∈ (one .unresolved)∗) : w ∈ played k := by
  have hnil := Language.append_mem_mul hw
    (show ([] : List Provenance) ∈ 1 + one .observed * (turn k)∗ from .inl rfl)
  rwa [List.append_nil] at hnil

theorem spoken_mem_played (hw : w ∈ spoken k) : w ∈ played k := by
  obtain ⟨a, ha, b, hb, rfl⟩ := Language.mem_mul.mp hw
  exact Language.append_mem_mul ha (.inr hb)

end Provenance

def Read (m : FieldModel) (n : String) (seen : List RawFrame) (frame : Nat) (v : FieldValue) :
    Prop :=
  ∃ f ∈ seen, f.frame = frame ∧ m.shown (f.reading n) (f.confidenceOf n) = some v

def Provenance.Means (m : FieldModel) (n : String) (seen : List RawFrame) (frozenAt : Option Nat)
    (before : List CorrectedState) (x : CorrectedState) (after : List CorrectedState) :
    Provenance → Prop
  | .unresolved => x.value n = none
  | .observed => ∃ v, x.value n = some v ∧ Read m n seen x.frame v
  | .held => x.value n ≠ none ∧ ∃ y, before.getLast? = some y ∧ y.value n = x.value n
  | .revised => ∃ y, after.head? = some y ∧ y.value n = x.value n ∧
      (y.provenance.get? n = some .revised ∨ y.provenance.get? n = some .observed)
  | .frozen => ∃ y ∈ before, frozenAt = some y.frame ∧ y.value n = x.value n

def Truthful (m : FieldModel) (n : String) (seen : List RawFrame) (frozenAt : Option Nat)
    (states : List CorrectedState) : Prop :=
  ∀ before x after, states = before ++ x :: after →
    ∃ p, x.provenance.get? n = some p ∧ p.Means m n seen frozenAt before x after

theorem Provenance.Means.append_after {m : FieldModel} {n : String} {seen : List RawFrame}
    {frozenAt : Option Nat} {before after : List CorrectedState} {x : CorrectedState}
    {p : Provenance} (h : p.Means m n seen frozenAt before x after) (more : List CorrectedState) :
    p.Means m n seen frozenAt before x (after ++ more) := by
  cases p with
  | unresolved => exact h
  | observed => exact h
  | held => exact h
  | frozen => exact h
  | revised =>
      obtain ⟨y, hy, hrest⟩ := h
      exact ⟨y, by rw [List.head?_append, hy]; rfl, hrest⟩

theorem Truthful.append {m : FieldModel} {n : String} {seen : List RawFrame}
    {frozenAt : Option Nat} {states tail : List CorrectedState}
    (h : Truthful m n seen frozenAt states)
    (htail : ∀ mid y rest, tail = mid ++ y :: rest → ∃ p, y.provenance.get? n = some p ∧
      p.Means m n seen frozenAt (states ++ mid) y rest) :
    Truthful m n seen frozenAt (states ++ tail) := by
  intro before x after heq
  rcases List.append_eq_append_iff.mp heq with ⟨mid, rfl, hmid⟩ | ⟨mid, rfl, hmid⟩
  · exact htail mid x after hmid
  · cases mid with
    | nil => simpa using htail [] x after hmid.symm
    | cons z mid =>
        obtain ⟨rfl, rfl⟩ := List.cons.inj hmid
        obtain ⟨p, hp, hmeans⟩ := h before x mid rfl
        exact ⟨p, hp, hmeans.append_after tail⟩

theorem Truthful.concat {m : FieldModel} {n : String} {seen : List RawFrame}
    {frozenAt : Option Nat} {states : List CorrectedState} {x : CorrectedState} {p : Provenance}
    (h : Truthful m n seen frozenAt states) (htag : x.provenance.get? n = some p)
    (hx : p.Means m n seen frozenAt states x []) :
    Truthful m n seen frozenAt (states ++ [x]) := by
  refine h.append fun mid y rest heq => ?_
  rcases concat_eq_append_cons (l := []) heq with ⟨rfl, rfl, rfl⟩ | ⟨rest', -, hnil⟩
  · rw [List.append_nil]
    exact ⟨p, htag, hx⟩
  · simp at hnil

structure Told (m : FieldModel) (n : String) (seen : List RawFrame) (frozenAt : Option Nat)
    (states : List CorrectedState) : Prop where
  tags : ∃ tags : List Provenance, states.map (·.provenance.get? n) = tags.map some ∧
    tags ∈ Provenance.course m.window
  truthful : Truthful m n seen frozenAt states
  stays : states.Pairwise fun x y => x.value n ≠ none → y.value n ≠ none

inductive Account (m : FieldModel) (n : String) (seen : List RawFrame) :
    List CorrectedState → Reading → Prop
  | start : Account m n seen [] none
  | unresolved {states : List CorrectedState} {x : CorrectedState} :
      Account m n seen states none → x.Shows n .unresolved none →
      Account m n seen (states ++ [x]) none
  | observed {states : List CorrectedState} {x : CorrectedState} {r : Reading} {v : FieldValue} :
      Account m n seen states r → x.Shows n .observed (some v) → Read m n seen x.frame v →
      Account m n seen (states ++ [x]) (some v)
  | held {states : List CorrectedState} {x : CorrectedState} {v : FieldValue} :
      Account m n seen states (some v) → x.Shows n .held (some v) →
      Account m n seen (states ++ [x]) (some v)
  | revised {states again : List CorrectedState} {x : CorrectedState} {u v : FieldValue} :
      Account m n seen states (some u) → 1 ≤ again.length → again.length ≤ m.window - 1 →
      (∀ y ∈ again, y.Shows n .revised (some v)) → x.Shows n .observed (some v) →
      Read m n seen x.frame v → Account m n seen (states ++ (again ++ [x])) (some v)

namespace Account

variable {m : FieldModel} {n : String} {seen : List RawFrame} {frozenAt : Option Nat}
  {states back : List CorrectedState} {r : Reading} {v : FieldValue}

theorem append_held (h : Account m n seen states (some v))
    (hback : ∀ x ∈ back, x.Shows n .held (some v)) :
    Account m n seen (states ++ back) (some v) := by
  induction back generalizing states with
  | nil => rwa [List.append_nil]
  | cons x back ih =>
      rw [List.append_cons]
      exact ih (h.held (hback x (List.mem_cons_self ..))) fun y hy =>
        hback y (List.mem_cons_of_mem _ hy)

theorem map (h : Account m n seen states r) {g : CorrectedState → CorrectedState}
    (hframe : ∀ x, (g x).frame = x.frame)
    (hg : ∀ x ∈ states, ∀ p r, x.Shows n p r → (g x).Shows n p r) :
    Account m n seen (states.map g) r := by
  induction h with
  | start => exact .start
  | @unresolved states x _ hx ih =>
      rw [List.map_append]
      exact (ih fun y hy => hg y (List.mem_append_left _ hy)).unresolved (hg x (by simp) _ _ hx)
  | @observed states x _ _ _ hx hread ih =>
      rw [List.map_append]
      exact (ih fun y hy => hg y (List.mem_append_left _ hy)).observed (hg x (by simp) _ _ hx)
        ((hframe x).symm ▸ hread)
  | @held states x _ _ hx ih =>
      rw [List.map_append]
      exact (ih fun y hy => hg y (List.mem_append_left _ hy)).held (hg x (by simp) _ _ hx)
  | @revised states again x _ _ _ hpos hlt hagain hx hread ih =>
      rw [List.map_append, List.map_append]
      refine (ih fun y hy => hg y (List.mem_append_left _ hy)).revised ?_ ?_ ?_
        (hg x (by simp) _ _ hx) ((hframe x).symm ▸ hread)
      · rwa [List.length_map]
      · rwa [List.length_map]
      · intro y hy
        obtain ⟨z, hz, rfl⟩ := List.mem_map.mp hy
        exact hg z (by simp [hz]) _ _ (hagain z hz)

theorem tags (h : Account m n seen states r) :
    ∃ tags : List Provenance, states.map (·.provenance.get? n) = tags.map some ∧
      (r = none → tags ∈ (Provenance.one .unresolved)∗) ∧
      (r ≠ none → tags ∈ Provenance.spoken m.window) := by
  induction h with
  | start => exact ⟨[], rfl, fun _ => Language.nil_mem_kstar _, fun h => absurd rfl h⟩
  | unresolved _ hx ih =>
      obtain ⟨tags, htags, hsilent, -⟩ := ih
      refine ⟨tags ++ [.unresolved], by simp [htags, hx.1], fun _ => ?_, fun h => absurd rfl h⟩
      exact Provenance.append_mem_kstar (hsilent rfl) (Provenance.mem_one _)
  | @observed _ _ r _ _ hx _ ih =>
      obtain ⟨tags, htags, hsilent, hspoken⟩ := ih
      refine ⟨tags ++ [.observed], by simp [htags, hx.1], (nomatch ·), fun _ => ?_⟩
      by_cases hr : r = none
      · exact Provenance.spoken_start (hsilent hr)
      · exact Provenance.spoken_turn (hspoken hr) Provenance.observed_mem_turn
  | held _ hx ih =>
      obtain ⟨tags, htags, -, hspoken⟩ := ih
      refine ⟨tags ++ [.held], by simp [htags, hx.1], (nomatch ·), fun _ => ?_⟩
      exact Provenance.spoken_turn (hspoken (by simp)) Provenance.held_mem_turn
  | @revised _ again _ _ _ _ hpos hlt hagain hx _ ih =>
      obtain ⟨tags, htags, -, hspoken⟩ := ih
      have hrevised : again.map (·.provenance.get? n) =
          (List.replicate again.length .revised).map some := by
        rw [List.map_replicate]
        exact List.eq_replicate_iff.mpr ⟨by simp, fun p hp => by
          obtain ⟨y, hy, rfl⟩ := List.mem_map.mp hp
          exact (hagain y hy).1⟩
      refine ⟨tags ++ (List.replicate again.length .revised ++ [.observed]), ?_, (nomatch ·),
        fun _ => ?_⟩
      · simp only [List.map_append, htags, hrevised, List.map_cons, List.map_nil, hx.1]
      · exact Provenance.spoken_turn (hspoken (by simp)) (Provenance.redone_mem_turn hpos hlt)

theorem last_value (h : Account m n seen states r) {y : CorrectedState}
    (hy : states.getLast? = some y) : y.value n = r := by
  have last {l : List CorrectedState} {x : CorrectedState} {r : Reading} {p : Provenance}
      (hl : (l ++ [x]).getLast? = some y) (hx : x.Shows n p r) : y.value n = r := by
    rw [List.getLast?_concat] at hl
    cases hl
    exact hx.2
  cases h with
  | start => cases hy
  | unresolved _ hx => exact last hy hx
  | observed _ hx _ => exact last hy hx
  | held _ hx => exact last hy hx
  | revised _ _ _ _ hx _ =>
      rw [← List.append_assoc] at hy
      exact last hy hx

theorem ne_nil (h : Account m n seen states (some v)) : states ≠ [] := by
  cases h with
  | observed _ _ _ => simp
  | held _ _ => simp
  | revised _ _ _ _ _ _ => simp

theorem truthful (h : Account m n seen states r) (frozenAt : Option Nat) :
    Truthful m n seen frozenAt states := by
  induction h with
  | start =>
      intro before x after heq
      simp at heq
  | unresolved _ hx ih => exact ih.concat hx.1 hx.2
  | observed _ hx hread ih => exact ih.concat hx.1 ⟨_, hx.2, hread⟩
  | held h hx ih =>
      have hy := List.getLast?_eq_some_getLast h.ne_nil
      exact ih.concat hx.1
        ⟨by simp [hx.2], _, hy, (h.last_value hy).trans hx.2.symm⟩
  | @revised states again x _ v _ _ _ hagain hx hread ih =>
      refine ih.append fun mid y rest heq => ?_
      rcases concat_eq_append_cons heq with ⟨rfl, rfl, rfl⟩ | ⟨rest', rfl, rfl⟩
      · exact ⟨.observed, hx.1, v, hx.2, hread⟩
      · have hy := hagain y (by simp)
        refine ⟨.revised, hy.1, ?_⟩
        cases rest' with
        | nil => exact ⟨x, rfl, hx.2.trans hy.2.symm, .inr hx.1⟩
        | cons z rest' =>
            have hz := hagain z (by simp)
            exact ⟨z, rfl, hz.2.trans hy.2.symm, .inl hz.1⟩

theorem stays (h : Account m n seen states r) :
    (states.Pairwise fun x y => x.value n ≠ none → y.value n ≠ none) ∧
      (r = none → ∀ x ∈ states, x.value n = none) := by
  have concat {states tail : List CorrectedState}
      (hstates : states.Pairwise fun x y => x.value n ≠ none → y.value n ≠ none)
      (htail : ∀ y ∈ tail, y.value n ≠ none) :
      (states ++ tail).Pairwise fun x y => x.value n ≠ none → y.value n ≠ none :=
    List.pairwise_append.mpr ⟨hstates,
      List.pairwise_of_forall_mem_list fun _ _ y hy _ => htail y hy, fun _ _ y hy _ => htail y hy⟩
  induction h with
  | start => exact ⟨.nil, fun _ _ hx => nomatch hx⟩
  | @unresolved states x _ hx ih =>
      obtain ⟨hstates, hnone⟩ := ih
      have hall : ∀ y ∈ states ++ [x], y.value n = none := by
        intro y hy
        rcases List.mem_append.mp hy with hold | hnew
        · exact hnone rfl y hold
        · rw [List.mem_singleton.mp hnew]
          exact hx.2
      exact ⟨List.pairwise_of_forall_mem_list fun y hy _ _ hsome => absurd (hall y hy) hsome,
        fun _ => hall⟩
  | observed _ hx _ ih => exact ⟨concat ih.1 (by simp [hx.2]), (nomatch ·)⟩
  | held _ hx ih => exact ⟨concat ih.1 (by simp [hx.2]), (nomatch ·)⟩
  | revised _ _ _ hagain hx _ ih =>
      refine ⟨concat ih.1 fun y hy => ?_, (nomatch ·)⟩
      rcases List.mem_append.mp hy with hold | hnew
      · simp [(hagain y hold).2]
      · simp [List.mem_singleton.mp hnew, hx.2]

theorem told (h : Account m n seen states r) (frozenAt : Option Nat) :
    Told m n seen frozenAt states := by
  obtain ⟨tags, htags, hsilent, hspoken⟩ := h.tags
  refine ⟨⟨tags, htags, ?_⟩, h.truthful frozenAt, h.stays.1⟩
  have hplayed : tags ∈ Provenance.played m.window := by
    by_cases hr : r = none
    · exact Provenance.silent_mem_played (hsilent hr)
    · exact Provenance.spoken_mem_played (hspoken hr)
  have hend := Language.append_mem_mul hplayed (Language.nil_mem_kstar (Provenance.one .frozen))
  rwa [List.append_nil] at hend

end Account

namespace Told

variable {m : FieldModel} {n : String} {seen : List RawFrame} {frozenAt : Option Nat}
  {states tail : List CorrectedState} {x y : CorrectedState} {r : Reading}

theorem concat_frozen (h : Told m n seen frozenAt states) (hy : y ∈ states)
    (hat : frozenAt = some y.frame) (hx : x.Shows n .frozen (y.value n))
    (hlast : ∀ z ∈ states, z.value n ≠ none → y.value n ≠ none) :
    Told m n seen frozenAt (states ++ [x]) := by
  obtain ⟨tags, htags, hcourse⟩ := h.tags
  refine ⟨⟨tags ++ [.frozen], by simp [htags, hx.1], ?_⟩, ?_, ?_⟩
  · obtain ⟨a, ha, b, hb, rfl⟩ := Language.mem_mul.mp hcourse
    rw [List.append_assoc]
    exact Language.append_mem_mul ha (Provenance.append_mem_kstar hb (Provenance.mem_one _))
  · exact h.truthful.concat hx.1 ⟨y, hy, hat, hx.2.symm⟩
  · refine List.pairwise_append.mpr ⟨h.stays, List.pairwise_singleton .., fun z hz w hw hsome => ?_⟩
    rw [List.mem_singleton.mp hw, hx.2]
    exact hlast z hz hsome

theorem append_frozen (h : Told m n seen frozenAt states) (hy : y ∈ states)
    (hat : frozenAt = some y.frame) (htail : ∀ x ∈ tail, x.Shows n .frozen (y.value n))
    (hlast : ∀ z ∈ states, z.value n ≠ none → y.value n ≠ none) :
    Told m n seen frozenAt (states ++ tail) := by
  induction tail generalizing states with
  | nil => rwa [List.append_nil]
  | cons x tail ih =>
      have hx := htail x (List.mem_cons_self ..)
      rw [List.append_cons]
      refine ih (h.concat_frozen hy hat hx hlast) (List.mem_append_left _ hy)
        (fun z hz => htail z (List.mem_cons_of_mem _ hz)) fun z hz hsome => ?_
      rcases List.mem_append.mp hz with hold | hnew
      · exact hlast z hold hsome
      · rwa [List.mem_singleton.mp hnew, hx.2] at hsome

end Told

end GameTimeline

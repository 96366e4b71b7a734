import GameTimeline.Proofs.Reconcile.Buffer
import Mathlib.Data.List.Induction

namespace GameTimeline.Belief

variable {ps seen : List Pending} {p : Pending} {threshold n : Nat} {v w : FieldValue}
  {best : Option (Nat × FieldValue)} {b : Belief}

def lastPlace (ps : List Pending) (v : FieldValue) : Nat :=
  ps.length - ps.reverse.findIdx (·.value = v)

theorem lastPlace_le (ps : List Pending) (v : FieldValue) : lastPlace ps v ≤ ps.length :=
  Nat.sub_le ..

theorem lastPlace_concat_self (ps : List Pending) (p : Pending) :
    lastPlace (ps ++ [p]) p.value = ps.length + 1 := by
  simp [lastPlace, List.findIdx_cons]

theorem lastPlace_concat_of_ne (h : p.value ≠ v) : lastPlace (ps ++ [p]) v = lastPlace ps v := by
  simp [lastPlace, List.findIdx_cons, h]

structure Wins (ps : List Pending) (threshold : Nat) (v : FieldValue) : Prop where
  enough : max threshold 1 ≤ votes ps v
  most : ∀ w, votes ps w ≤ votes ps v
  latest : ∀ w, w ≠ v → votes ps w = votes ps v → lastPlace ps w < lastPlace ps v

theorem Wins.unique (hv : Wins ps threshold v) (hw : Wins ps threshold w) : v = w := by
  by_contra hne
  have htie : votes ps v = votes ps w := Nat.le_antisymm (hw.most v) (hv.most w)
  have hlast := hw.latest v hne htie
  have hlast' := hv.latest w (Ne.symm hne) htie.symm
  exact absurd hlast (Nat.lt_asymm hlast')

inductive Leads (ps : List Pending) (threshold : Nat) (seen : List Pending) :
    Option (Nat × FieldValue) → Prop
  | nobody (few : ∀ p ∈ seen, votes ps p.value < threshold) : Leads ps threshold seen none
  | leader (v : FieldValue) (enough : threshold ≤ votes ps v) (shown : ∃ p ∈ seen, p.value = v)
      (ahead : ∀ p ∈ seen, p.value ≠ v → threshold ≤ votes ps p.value →
        votes ps p.value < votes ps v ∨
          votes ps p.value = votes ps v ∧ lastPlace seen p.value < lastPlace seen v) :
      Leads ps threshold seen (some (votes ps v, v))

namespace Leads

theorem pass (h : Leads ps threshold seen best) (hfew : votes ps p.value < threshold) :
    Leads ps threshold (seen ++ [p]) best := by
  cases h with
  | nobody few =>
      refine .nobody fun q hq => ?_
      rcases List.mem_append.mp hq with hq | hq
      · exact few q hq
      · rwa [List.mem_singleton.mp hq]
  | leader v enough shown ahead =>
      obtain ⟨r, hr, hrv⟩ := shown
      have hother {w : FieldValue} (hw : threshold ≤ votes ps w) : p.value ≠ w := by
        rintro rfl
        exact absurd hfew (Nat.not_lt.mpr hw)
      refine .leader v enough ⟨r, List.mem_append_left _ hr, hrv⟩ fun q hq hne hmany => ?_
      rcases List.mem_append.mp hq with hq | hq
      · rw [lastPlace_concat_of_ne (hother hmany), lastPlace_concat_of_ne (hother enough)]
        exact ahead q hq hne hmany
      · exact absurd (List.mem_singleton.mp hq ▸ rfl) (hother hmany)

theorem overtake (hmany : threshold ≤ votes ps p.value)
    (hahead : ∀ q ∈ seen, threshold ≤ votes ps q.value → votes ps q.value ≤ votes ps p.value) :
    Leads ps threshold (seen ++ [p]) (some (votes ps p.value, p.value)) := by
  refine .leader p.value hmany ⟨p, by simp, rfl⟩ fun q hq hne hq' => ?_
  rcases List.mem_append.mp hq with hq | hq
  · -- whatever is shown as often was shown before `p`
    have hlast : lastPlace (seen ++ [p]) q.value < lastPlace (seen ++ [p]) p.value := by
      rw [lastPlace_concat_of_ne (Ne.symm hne), lastPlace_concat_self]
      exact Nat.lt_succ_of_le (lastPlace_le ..)
    exact (Nat.lt_or_eq_of_le (hahead q hq hq')).imp_right fun htie => ⟨htie, hlast⟩
  · exact absurd (congrArg _ (List.mem_singleton.mp hq)) hne

theorem stay (h : Leads ps threshold seen (some (n, v))) (hless : votes ps p.value < n) :
    Leads ps threshold (seen ++ [p]) (some (n, v)) := by
  cases h with
  | leader v enough shown ahead =>
      obtain ⟨r, hr, hrv⟩ := shown
      have hpv : p.value ≠ v := by
        rintro rfl
        exact Nat.lt_irrefl _ hless
      refine .leader v enough ⟨r, List.mem_append_left _ hr, hrv⟩ fun q hq hne hmany => ?_
      by_cases hqp : p.value = q.value
      · exact .inl (hqp ▸ hless)
      · rcases List.mem_append.mp hq with hq | hq
        · rw [lastPlace_concat_of_ne hqp, lastPlace_concat_of_ne hpv]
          exact ahead q hq hne hmany
        · exact absurd (congrArg _ (List.mem_singleton.mp hq).symm) hqp

theorem le (h : Leads ps threshold seen (some (n, v))) {q : Pending} (hq : q ∈ seen)
    (hmany : threshold ≤ votes ps q.value) : votes ps q.value ≤ n := by
  cases h with
  | leader v enough shown ahead =>
      by_cases hqv : q.value = v
      · exact Nat.le_of_eq (congrArg _ hqv)
      · rcases ahead q hq hqv hmany with hlt | ⟨htie, -⟩
        · exact Nat.le_of_lt hlt
        · exact Nat.le_of_eq htie

theorem step (h : Leads ps threshold seen best) (p : Pending) :
    Leads ps threshold (seen ++ [p]) (prefer ps threshold best p) := by
  simp only [prefer]
  split
  case isTrue hfew => exact h.pass hfew
  case isFalse hmany =>
    rw [Nat.not_lt] at hmany
    cases best with
    | none =>
        cases h with
        | nobody few =>
            exact overtake hmany fun q hq hq' => absurd (few q hq) (Nat.not_lt.mpr hq')
    | some leader =>
        obtain ⟨n, v⟩ := leader
        dsimp only
        split
        case isTrue hle => exact overtake hmany fun q hq hq' => Nat.le_trans (h.le hq hq') hle
        case isFalse hless => exact h.stay (Nat.not_le.mp hless)

theorem foldl (ps : List Pending) (threshold : Nat) (seen : List Pending) :
    Leads ps threshold seen (seen.foldl (prefer ps threshold) none) := by
  induction seen using List.reverseRecOn with
  | nil => exact .nobody nofun
  | append_singleton seen p ih =>
      rw [List.foldl_concat]
      exact ih.step p

theorem wins (h : Leads ps threshold ps (some (n, v))) : Wins ps threshold v := by
  have hle (q : Pending) := h.le (q := q)
  cases h with
  | leader v enough shown ahead =>
      have hpos : 0 < votes ps v := votes_pos_iff.mpr shown
      have most (w : FieldValue) : votes ps w ≤ votes ps v := by
        by_contra hlt
        rw [Nat.not_le] at hlt
        obtain ⟨q, hq, rfl⟩ := votes_pos_iff.mp (Nat.lt_trans hpos hlt)
        exact absurd (hle q hq (Nat.le_trans enough (Nat.le_of_lt hlt))) (Nat.not_le.mpr hlt)
      refine ⟨Nat.max_le.mpr ⟨enough, hpos⟩, most, fun w hne htie => ?_⟩
      obtain ⟨q, hq, rfl⟩ := votes_pos_iff.mp (htie.symm ▸ hpos)
      rcases ahead q hq hne (htie.symm ▸ enough) with hlt | ⟨-, hlast⟩
      · exact absurd htie (Nat.ne_of_lt hlt)
      · exact hlast

end Leads

theorem wins_of_majority (h : b.majority threshold = some v) : Wins b.pending threshold v := by
  obtain ⟨⟨n, w⟩, hfold, rfl⟩ := Option.map_eq_some_iff.mp h
  have hleads := Leads.foldl b.pending threshold b.pending
  rw [hfold] at hleads
  exact hleads.wins

theorem majority_some (h : b.majority threshold = some v) :
    threshold ≤ votes b.pending v ∧ ∃ p ∈ b.pending, p.value = v :=
  have enough := Nat.max_le.mp (wins_of_majority h).enough
  ⟨enough.1, votes_pos_iff.mp enough.2⟩

theorem majority_eq_none_iff :
    b.majority threshold = none ↔ ¬ ∃ v, max threshold 1 ≤ votes b.pending v := by
  constructor
  · rintro h ⟨v, hmany⟩
    have hleads := Leads.foldl b.pending threshold b.pending
    rw [Option.map_eq_none_iff.mp h] at hleads
    obtain ⟨hreaches, hpos⟩ := Nat.max_le.mp hmany
    obtain ⟨p, hp, rfl⟩ := votes_pos_iff.mp hpos
    cases hleads with
    | nobody few => exact absurd hreaches (Nat.not_le.mpr (few p hp))
  · intro hfew
    cases hv : b.majority threshold with
    | none => rfl
    | some v => exact absurd ⟨v, (wins_of_majority hv).enough⟩ hfew

theorem votes_lt_of_majority_none (hpos : 0 < threshold) (h : b.majority threshold = none)
    (v : FieldValue) : votes b.pending v < threshold := by
  have hfew := not_exists.mp (majority_eq_none_iff.mp h) v
  rwa [Nat.max_eq_left hpos, Nat.not_le] at hfew

theorem majority_eq_some_iff : b.majority threshold = some v ↔ Wins b.pending threshold v := by
  refine ⟨wins_of_majority, fun hwins => ?_⟩
  cases hw : b.majority threshold with
  | none => exact absurd ⟨v, hwins.enough⟩ (majority_eq_none_iff.mp hw)
  | some w => rw [(wins_of_majority hw).unique hwins]

theorem majority_congr {b' : Belief} (hvotes : ∀ v, votes b.pending v = votes b'.pending v)
    (hlast : ∀ v w, lastPlace b.pending v < lastPlace b.pending w ↔
      lastPlace b'.pending v < lastPlace b'.pending w) (threshold : Nat) :
    b.majority threshold = b'.majority threshold := by
  refine Option.ext fun v => ?_
  rw [majority_eq_some_iff, majority_eq_some_iff]
  constructor
  · rintro ⟨enough, most, latest⟩
    simp only [hvotes, hlast] at enough most latest
    exact ⟨enough, most, latest⟩
  · rintro ⟨enough, most, latest⟩
    simp only [← hvotes, ← hlast] at enough most latest
    exact ⟨enough, most, latest⟩

theorem majority_exact (b : Belief) (threshold : Nat) :
    (b.majority threshold = none ↔ ¬ ∃ v, max threshold 1 ≤ votes b.pending v) ∧
    (∀ v, b.majority threshold = some v ↔
      max threshold 1 ≤ votes b.pending v ∧ (∀ w, votes b.pending w ≤ votes b.pending v) ∧
        ∀ w, w ≠ v → votes b.pending w = votes b.pending v →
          lastPlace b.pending w < lastPlace b.pending v) ∧
    (∀ b' : Belief, (∀ v, votes b.pending v = votes b'.pending v) →
      (∀ v w, lastPlace b.pending v < lastPlace b.pending w ↔
        lastPlace b'.pending v < lastPlace b'.pending w) →
      b.majority threshold = b'.majority threshold) := by
  refine ⟨majority_eq_none_iff, fun v => ?_, fun b' hvotes hlast => ?_⟩
  · rw [majority_eq_some_iff]
    constructor
    · rintro ⟨enough, most, latest⟩
      exact ⟨enough, most, latest⟩
    · rintro ⟨enough, most, latest⟩
      exact ⟨enough, most, latest⟩
  · exact majority_congr hvotes hlast threshold

theorem majority_exact_tie :
    ∃ b b' : Belief, b.pending.map (·.value) = [.int 7, .int 9, .int 7, .int 9] ∧
      b'.pending.map (·.value) = [.int 9, .int 7, .int 7, .int 9] ∧
      (∀ v, votes b.pending v = votes b'.pending v) ∧
      (∀ v w, lastPlace b.pending v < lastPlace b.pending w ↔
        lastPlace b'.pending v < lastPlace b'.pending w) ∧
      b.majority 2 = some (.int 9) ∧ b'.majority 2 = some (.int 9) := by
  let ps : List Pending := [⟨1, 1, .int 7⟩, ⟨2, 2, .int 9⟩, ⟨3, 3, .int 7⟩, ⟨4, 4, .int 9⟩]
  let qs : List Pending := [⟨2, 2, .int 9⟩, ⟨1, 1, .int 7⟩, ⟨3, 3, .int 7⟩, ⟨4, 4, .int 9⟩]
  have hvotes (v : FieldValue) : votes ps v = votes qs v := (List.Perm.swap ..).countP_eq _
  have hplace (v : FieldValue) : lastPlace ps v = lastPlace qs v := by
    by_cases h7 : FieldValue.int 7 = v
    · subst h7
      rfl
    · by_cases h9 : FieldValue.int 9 = v
      · subst h9
        rfl
      · simp [lastPlace, ps, qs, List.findIdx_cons, h7, h9]
  have hlast (v w : FieldValue) :
      lastPlace ps v < lastPlace ps w ↔ lastPlace qs v < lastPlace qs w := by
    rw [hplace, hplace]
  have hnine : majority ⟨none, ps⟩ 2 = some (.int 9) := by decide
  have hsame := (majority_exact ⟨none, ps⟩ 2).2.2 ⟨none, qs⟩ hvotes hlast
  exact ⟨⟨none, ps⟩, ⟨none, qs⟩, rfl, rfl, hvotes, hlast, hnine, hsame.symm.trans hnine⟩

end GameTimeline.Belief

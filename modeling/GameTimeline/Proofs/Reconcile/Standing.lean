import GameTimeline.Proofs.Reconcile.Waiting
import GameTimeline.Proofs.Traversal

namespace GameTimeline

theorem FieldModel.classify_none_ne_suspect (m : FieldModel) (c : FieldValue) (elapsed : Nat) :
    m.classify none c elapsed ≠ .suspect := by
  rw [classify]
  cases m.normalize c <;> simp

namespace Belief

variable {m : FieldModel} {b : Belief} {last : Option Nat} {seq later frame : Nat}
  {c v : FieldValue}

structure Sound (m : FieldModel) (last : Option Nat) (b : Belief) : Prop where
  grounded : b.pending ≠ [] → b.accepted ≠ none
  frames : b.pending.Pairwise (·.frame < ·.frame)
  seqs : b.pending.Pairwise (·.seq < ·.seq)
  after : ∀ a, b.acceptedFrame = some a → ∀ p ∈ b.pending, a < p.frame
  reached : ∀ p ∈ b.pending, ∃ l, last = some l ∧ p.frame ≤ l
  room : b.pending.length ≤ m.window

structure Standing (m : FieldModel) (last : Option Nat) (seq : Nat) (b : Belief) : Prop
    extends b.Waiting m seq, b.Sound m last where
  known : ∀ a, b.acceptedFrame = some a → ∃ l, last = some l ∧ a ≤ l

namespace Standing

theorem of_sublist (h : b.Standing m last seq) {b' : Belief} (hacc : b'.accepted = b.accepted)
    (hsub : b'.pending.Sublist b.pending) : b'.Standing m last seq where
  toWaiting := h.toWaiting.of_sublist hsub
  grounded hp := by
    rw [hacc]
    refine h.grounded fun hnil => hp ?_
    rw [hnil] at hsub
    exact List.sublist_nil.mp hsub
  frames := h.frames.sublist hsub
  after a ha p hp := by
    rw [acceptedFrame, hacc] at ha
    exact h.after a ha p (hsub.subset hp)
  reached p hp := h.reached p (hsub.subset hp)
  room := hsub.length_le.trans h.room
  known a ha := by
    rw [acceptedFrame, hacc] at ha
    exact h.known a ha

theorem expire (h : b.Standing m last seq) (later : Nat) :
    (b.expire m.window later).Standing m last seq :=
  h.of_sublist rfl (List.dropWhile_sublist _)

theorem clear (h : b.Standing m last seq) : Standing m last seq { b with pending := [] } :=
  h.of_sublist rfl (List.nil_sublist _)

theorem of_nil (hm : m.validate = .ok ()) (hp : b.pending = [])
    (hknown : ∀ a, b.acceptedFrame = some a → ∃ l, last = some l ∧ a ≤ l) :
    b.Standing m last seq where
  seqs := hp ▸ .nil
  counted := hp ▸ fun _ h => nomatch h
  few _ := hp ▸ FieldModel.majority_pos hm
  grounded hne := absurd hp hne
  frames := hp ▸ .nil
  after _ _ := hp ▸ fun _ h => nomatch h
  reached := hp ▸ fun _ h => nomatch h
  room := hp ▸ Nat.zero_le _
  known := hknown

theorem empty (hm : m.validate = .ok ()) : Belief.empty.Standing m none 0 :=
  of_nil hm rfl fun _ h => nomatch h

theorem accept (hm : m.validate = .ok ()) (v : FieldValue) (frame seq : Nat) :
    (Belief.accept v frame).Standing m (some frame) seq :=
  of_nil hm rfl fun _ ha => ⟨frame, rfl, Nat.le_of_eq (Option.some.inj ha).symm⟩

theorem pass (h : b.Standing m last seq) (hlast : ∀ l, last = some l → l < frame)
    (hseq : seq ≤ later) : b.Standing m (some frame) later where
  seqs := h.seqs
  counted p hp := (h.counted p hp).trans hseq
  few := h.few
  grounded := h.grounded
  frames := h.frames
  after := h.after
  reached p hp := by
    obtain ⟨l, hl, hle⟩ := h.reached p hp
    exact ⟨frame, rfl, hle.trans (Nat.le_of_lt (hlast l hl))⟩
  room := h.room
  known a ha := by
    obtain ⟨l, hl, hle⟩ := h.known a ha
    exact ⟨frame, rfl, hle.trans (Nat.le_of_lt (hlast l hl))⟩

theorem push (h : b.Standing m last seq) (hlast : ∀ l, last = some l → l < frame)
    (hseq : seq < later) (hroom : b.pending.length < m.window) (hacc : b.accepted ≠ none)
    (hfew : ∀ v, votes (b.push m.window ⟨frame, later, c⟩).pending v < m.majority) :
    (b.push m.window ⟨frame, later, c⟩).Standing m (some frame) later := by
  have hpass := h.pass hlast (Nat.le_of_lt hseq)
  have hpending := push_pending hroom ⟨frame, later, c⟩
  have hbefore : ∀ p ∈ b.pending, p.frame < frame := by
    intro p hp
    obtain ⟨l, hl, hle⟩ := h.reached p hp
    exact Nat.lt_of_le_of_lt hle (hlast l hl)
  have hmem {p : Pending} (hp : p ∈ (b.push m.window ⟨frame, later, c⟩).pending) :
      p ∈ b.pending ∨ p = ⟨frame, later, c⟩ := mem_push hp
  refine { seqs := ?_, counted := ?_, few := hfew, grounded := fun _ => hacc, frames := ?_,
           after := ?_, reached := ?_, room := ?_, known := hpass.known }
  · rw [hpending]
    exact pairwise_concat h.seqs fun p hp => Nat.lt_of_le_of_lt (h.counted p hp) hseq
  · intro p hp
    rcases hmem hp with hold | rfl
    · exact hpass.counted p hold
    · exact Nat.le_refl _
  · rw [hpending]
    exact pairwise_concat h.frames hbefore
  · intro a ha p hp
    rcases hmem hp with hold | rfl
    · exact h.after a ha p hold
    · obtain ⟨l, hl, hle⟩ := h.known a ha
      exact Nat.lt_of_le_of_lt hle (hlast l hl)
  · intro p hp
    rcases hmem hp with hold | rfl
    · exact hpass.reached p hold
    · exact ⟨frame, rfl, Nat.le_refl _⟩
  · rw [hpending, List.length_append, List.length_singleton]
    exact hroom

end Standing

theorem Sound.firstPending_eq (h : b.Sound m last) :
    b.firstPending = (b.pending.map (·.frame)).min? := by
  have hord := List.pairwise_map.mpr h.frames
  rw [firstPending, ← List.head?_map]
  cases hl : b.pending.map (·.frame) with
  | nil => rfl
  | cons g rest =>
      rw [hl] at hord
      refine (List.min?_eq_some_iff.mpr ⟨List.mem_cons_self .., fun x hx => ?_⟩).symm
      rcases List.mem_cons.mp hx with rfl | hx
      · exact Nat.le_refl _
      · exact Nat.le_of_lt ((List.pairwise_cons.mp hord).1 x hx)

end Belief

namespace Track

variable {m : FieldModel} {t : Track} {o : Observation} {last : Option Nat} {seq : Nat}

theorem standing_step (h : t.current.Standing m last seq) (hm : m.validate = .ok ())
    (hmodel : t.model = m) (hlast : ∀ l, last = some l → l < o.frame) (hseq : seq < o.seq) :
    (t.step o).1.current.Standing m (some o.frame) o.seq ∧
      ∀ p ∈ (t.step o).1.current.pending, o.seq - p.seq < m.window := by
  have hmoves := moves h.toWaiting hm hmodel hseq
  have hold := (h.expire o.seq).pass hlast (Nat.le_of_lt hseq)
  have hfresh : ∀ p ∈ (t.current.expire m.window o.seq).pending, o.seq - p.seq < m.window :=
    fun p hp => h.toWaiting.fresh hp
  generalize (t.step o).1.current = b' at hmoves ⊢
  cases hmoves with
  | keeps _ _ _ _ _ => exact ⟨hold, hfresh⟩
  | @buffers _ c _ hc hnone _ _ _ =>
      -- with nothing accepted yet, nothing is suspect
      have hacc : (t.current.expire m.window o.seq).accepted ≠ none := by
        intro hnil
        rw [Belief.value, hnil] at hc
        exact m.classify_none_ne_suspect _ _ hc
      refine ⟨(h.expire o.seq).push hlast hseq (h.toWaiting.room hm hseq) hacc ?_, ?_⟩
      · exact Belief.votes_lt_of_majority_none (FieldModel.majority_pos hm) hnone
      · intro p hp
        rcases Belief.mem_push hp with hp | rfl
        · exact hfresh p hp
        · simpa using FieldModel.window_pos hm
  | accepts _ _ _ _ _ => exact ⟨.accept hm _ _ _, fun p hp => nomatch hp⟩
  | confirms _ _ _ _ _ _ => exact ⟨.accept hm _ _ _, fun p hp => nomatch hp⟩

theorem firstPending_eq (t : Track) : t.firstPending = t.current.pending.head?.map (·.frame) := by
  obtain ⟨_, b?⟩ := t
  cases b? <;> rfl

theorem clear_current (t : Track) : t.clear.1.current = { t.current with pending := [] } := by
  obtain ⟨_, b?⟩ := t
  cases b? <;> rfl

end Track

end GameTimeline

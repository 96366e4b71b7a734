import GameTimeline.Decimal.Spelling
import GameTimeline.Proofs.Text.Digits

namespace GameTimeline.Decimal

def isFigure (c : Char) : Bool := c.isDigit || c = '.' || c = '-' || c = '+' || c = 'e'

theorem isFigure_of_isDigit {c : Char} (h : c.isDigit = true) : isFigure c = true := by
  simp [isFigure, h]

theorem isBlank_of_isFigure {c : Char} (h : isFigure c = true) : Text.isBlank c = false := by
  simp only [isFigure, Bool.or_eq_true, decide_eq_true_eq] at h
  rcases h with (((h | rfl) | rfl) | rfl) | rfl
  · exact Text.isBlank_of_isDigit h
  all_goals decide

theorem isFigure_decimal (n : Int) : ∀ c ∈ Text.decimal n, isFigure c = true := by
  cases n with
  | ofNat m => exact fun c hc => isFigure_of_isDigit (Text.isDigit_toDigits c hc)
  | negSucc m =>
      exact List.forall_mem_cons.mpr
        ⟨rfl, fun c hc => isFigure_of_isDigit (Text.isDigit_toDigits c hc)⟩

namespace Figures

variable {f : Figures}

theorem isFigure_sign (f : Figures) : ∀ c ∈ f.sign, isFigure c = true := by
  rw [sign]
  split
  · exact List.forall_mem_singleton.mpr rfl
  · exact List.forall_mem_nil _

theorem isFigure_positional (h : ∀ c ∈ f.digits, c.isDigit = true) :
    ∀ c ∈ f.positional, isFigure c = true := by
  have hdigits : ∀ c ∈ f.digits, isFigure c = true := fun c hc => isFigure_of_isDigit (h c hc)
  have hzeros (n : Int) : ∀ c ∈ zeros n, isFigure c = true := by
    intro c hc
    rw [(List.mem_replicate.mp hc).2]
    rfl
  rw [positional]
  split
  · simp only [List.cons_append, List.forall_mem_cons, List.forall_mem_append]
    exact ⟨rfl, rfl, hzeros _, hdigits⟩
  · split
    · exact List.forall_mem_append.mpr ⟨hdigits, hzeros _⟩
    · simp only [List.forall_mem_append, List.forall_mem_cons]
      exact ⟨fun c hc => hdigits c (List.mem_of_mem_take hc), rfl,
        fun c hc => hdigits c (List.mem_of_mem_drop hc)⟩

theorem isFigure_plain (h : ∀ c ∈ f.digits, c.isDigit = true) :
    ∀ c ∈ f.plain, isFigure c = true :=
  List.forall_mem_append.mpr ⟨f.isFigure_sign, isFigure_positional h⟩

theorem isFigure_exponential (h : ∀ c ∈ f.digits, c.isDigit = true) :
    ∀ c ∈ f.exponential, isFigure c = true := by
  have hdigits : ∀ c ∈ f.digits, isFigure c = true := fun c hc => isFigure_of_isDigit (h c hc)
  have hexponent (n : Nat) : ∀ c ∈ Nat.toDigits 10 n, isFigure c = true :=
    fun c hc => isFigure_of_isDigit (Text.isDigit_toDigits c hc)
  simp only [exponential, List.forall_mem_append, List.forall_mem_cons]
  refine ⟨?_, rfl, by split <;> rfl, hexponent _⟩
  split
  · simp
  · rename_i hone
    rwa [← hone]
  · rename_i hmore
    rw [hmore, List.forall_mem_cons] at hdigits
    exact List.forall_mem_cons.mpr ⟨hdigits.1, List.forall_mem_cons.mpr ⟨rfl, hdigits.2⟩⟩

theorem isFigure_json (h : ∀ c ∈ f.digits, c.isDigit = true) :
    ∀ c ∈ f.json, isFigure c = true := by
  rw [json]
  split
  · simp only [List.forall_mem_append]
    refine ⟨⟨f.isFigure_sign, isFigure_positional h⟩, ?_⟩
    split
    · exact List.forall_mem_cons.mpr ⟨rfl, List.forall_mem_singleton.mpr rfl⟩
    · exact List.forall_mem_nil _
  · exact List.forall_mem_append.mpr ⟨f.isFigure_sign, isFigure_exponential h⟩

end Figures

theorem isDigit_of_ofBits {f : Format} {tie : Tie} {bits : Nat} {g : Figures}
    (h : Reading.ofBits f tie bits = .finite g) : ∀ c ∈ g.digits, c.isDigit = true := by
  simp only [Reading.ofBits] at h
  split at h
  · cases h
    intro c hc
    rw [List.mem_singleton.mp hc]
    rfl
  · split at h
    · cases h
      intro c hc
      have hmem := (List.dropWhile_sublist _).subset (List.mem_reverse.mp hc)
      exact Text.isDigit_toDigits c (List.mem_reverse.mp hmem)
    · split at h <;> cases h

theorem trimChars_showFloat (x : Float) :
    Text.trimChars (showFloat x).toList = (showFloat x).toList := by
  rw [showFloat, String.toList_ofList]
  refine Text.trimChars_of_no_blank ?_
  cases h : Reading.ofFloat .up x with
  | finite f => exact fun c hc => isBlank_of_isFigure (f.isFigure_plain (isDigit_of_ofBits h) c hc)
  | infinite negative => exact Text.not_blank_of_all (by cases negative <;> rfl)
  | notANumber => exact Text.not_blank_of_all rfl

end GameTimeline.Decimal

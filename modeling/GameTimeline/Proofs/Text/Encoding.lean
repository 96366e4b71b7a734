import GameTimeline.Proofs.Text.Bytes
import Mathlib.Tactic.SplitIfs

namespace GameTimeline.Text

variable {c d : Char} {m n x y : Nat} {s t : String} {l r : List Char}

theorem byte_lt_iff (hx : x < 256) (hy : y < 256) : UInt8.ofNat x < UInt8.ofNat y ↔ x < y := by
  rw [UInt8.lt_iff_toNat_lt, UInt8.toNat_ofNat_of_lt' hx, UInt8.toNat_ofNat_of_lt' hy]

theorem byte_eq_iff (hx : x < 256) (hy : y < 256) : UInt8.ofNat x = UInt8.ofNat y ↔ x = y := by
  rw [← UInt8.toNat_inj, UInt8.toNat_ofNat_of_lt' hx, UInt8.toNat_ofNat_of_lt' hy]

theorem sextets_lt (h : m < n) : m / 262144 < n / 262144 ∨ m / 262144 = n / 262144 ∧
    (m / 4096 % 64 < n / 4096 % 64 ∨ m / 4096 % 64 = n / 4096 % 64 ∧
      (m / 64 % 64 < n / 64 % 64 ∨ m / 64 % 64 = n / 64 % 64 ∧ m % 64 < n % 64)) := by
  have hhigh : m / 262144 ≤ n / 262144 := Nat.div_le_div_right (Nat.le_of_lt h)
  have hmiddle : m / 4096 ≤ n / 4096 := Nat.div_le_div_right (Nat.le_of_lt h)
  have hlow : m / 64 ≤ n / 64 := Nat.div_le_div_right (Nat.le_of_lt h)
  omega

theorem utf8EncodeChar_append_lt (h : c < d) (l r : List UInt8) :
    String.utf8EncodeChar c ++ l < String.utf8EncodeChar d ++ r := by
  have hlt : c.val.toNat < d.val.toNat := h
  have hmax : d.val.toNat < 0x110000 := by
    rcases d.valid with hlow | ⟨-, hhigh⟩ <;> omega
  simp only [String.utf8EncodeChar]
  generalize c.val.toNat = m at *
  generalize d.val.toNat = n at *
  have hdigits := sextets_lt hlt
  have hm : m / 262144 % 8 = m / 262144 := by omega
  have hn : n / 262144 % 8 = n / 262144 := by omega
  rw [hm, hn]
  split_ifs <;>
    simp (disch := omega) only [List.cons_append, List.nil_append, List.cons_lt_cons_iff,
      byte_lt_iff, byte_eq_iff] <;>
    omega

theorem encode_cons (c : Char) (l : List Char) :
    encode (c :: l) = String.utf8EncodeChar c ++ encode l :=
  List.flatMap_cons

theorem encode_append (l r : List Char) : encode (l ++ r) = encode l ++ encode r :=
  List.flatMap_append

theorem utf8_eq (s : String) : utf8 s = encode s.toList := by
  have hbytes : s.toUTF8 = (s.toList.flatMap String.utf8EncodeChar).toByteArray := by
    rw [String.toUTF8_eq_toByteArray, ← String.ofList_toList (s := s), String.toList_ofList]
    rfl
  rw [utf8, hbytes, toList_bytes, List.data_toByteArray, encode]

theorem encode_lt_encode (h : l < r) : encode l < encode r := by
  induction h with
  | nil =>
      rename_i d r
      obtain ⟨b, bytes, hd⟩ := List.exists_cons_of_ne_nil (String.utf8EncodeChar_ne_nil (c := d))
      rw [encode_cons, hd, List.cons_append]
      exact List.nil_lt_cons b _
  | rel hlt =>
      rw [encode_cons, encode_cons]
      exact utf8EncodeChar_append_lt hlt _ _
  | cons _ ih =>
      rw [encode_cons, encode_cons]
      exact List.append_left_lt ih

theorem utf8_lt_utf8 (h : s < t) : utf8 s < utf8 t := by
  rw [utf8_eq, utf8_eq]
  exact encode_lt_encode h

section Slice

theorem lead_le_iff (hx : x < 256) : (0xc0 : UInt8) ≤ UInt8.ofNat x ↔ 0xc0 ≤ x := by
  rw [UInt8.le_iff_toNat_le, UInt8.toNat_ofNat_of_lt' hx]
  rfl

theorem utf8EncodeChar_cases (c : Char) :
    (c.val.toNat < 0x80 ∧ String.utf8EncodeChar c = [UInt8.ofNat c.val.toNat]) ∨
      ∃ b bytes, String.utf8EncodeChar c = b :: bytes ∧ 0xc0 ≤ b := by
  simp only [String.utf8EncodeChar]
  split_ifs with hone
  · exact .inl ⟨Nat.lt_succ_of_le hone, rfl⟩
  all_goals exact .inr ⟨_, _, rfl, (lead_le_iff (by omega)).mpr (by omega)⟩

theorem encode_singleton (hc : c.val.toNat < 0x80) : encode [c] = [UInt8.ofNat c.val.toNat] := by
  simp only [encode_cons, String.utf8EncodeChar, if_pos (Nat.le_of_lt_succ hc)]
  rfl

theorem isBoundary_append (l r : List Char) :
    isBoundary (encode (l ++ r)) (encode l).length = true := by
  rw [encode_append]
  cases r with
  | nil => simp [isBoundary, encode]
  | cons c r =>
      have hlead : ∃ b bytes, encode (c :: r) = b :: bytes ∧ (b < 0x80 ∨ 0xc0 ≤ b) := by
        rcases utf8EncodeChar_cases c with ⟨hlow, hone⟩ | ⟨b, bytes, hmore, hhigh⟩
        · refine ⟨_, _, by rw [encode_cons, hone]; rfl, .inl ?_⟩
          exact (byte_lt_iff (y := 0x80) (by omega) (by decide)).mpr hlow
        · exact ⟨b, bytes ++ encode r, by rw [encode_cons, hmore]; rfl, .inr hhigh⟩
      obtain ⟨b, bytes, hbytes, hb⟩ := hlead
      simp [isBoundary, hbytes, hb]

theorem slice?_encode_iff (hc : c.val.toNat < 0x80) :
    slice? (encode (l ++ r)) (encode l).length ((encode l).length + 1) = some (encode [c]) ↔
      ∃ s, r = c :: s := by
  constructor
  · intro h
    have htake : (encode r).take 1 = encode [c] := by
      rw [slice?] at h
      split at h
      · rw [encode_append, List.drop_left, Nat.add_sub_cancel_left] at h
        exact Option.some.inj h
      · cases h
    rw [encode_singleton hc] at htake
    cases r with
    | nil => cases htake
    | cons d s =>
        refine ⟨s, ?_⟩
        rw [encode_cons] at htake
        rcases utf8EncodeChar_cases d with ⟨hd, hone⟩ | ⟨b, bytes, hmore, hlead⟩
        · rw [hone] at htake
          have hbyte := (List.cons.inj htake).1
          rw [byte_eq_iff (by omega) (by omega)] at hbyte
          rw [Char.ext (UInt32.toNat_inj.mp hbyte)]
        · rw [hmore] at htake
          obtain ⟨rfl, -⟩ := List.cons.inj htake
          rw [lead_le_iff (by omega)] at hlead
          omega
  · rintro ⟨s, rfl⟩
    have hstop := isBoundary_append (l ++ [c]) s
    have hnext : (encode (l ++ [c])).length = (encode l).length + 1 := by
      rw [encode_append, encode_singleton hc, List.length_append, List.length_singleton]
    rw [hnext, List.append_assoc, List.singleton_append] at hstop
    rw [slice?, isBoundary_append, hstop, Bool.and_true, Bool.and_true,
      if_pos (decide_eq_true (Nat.le_succ _)), encode_append, List.drop_left,
      Nat.add_sub_cancel_left, ← List.singleton_append, encode_append, encode_singleton hc]
    rfl

end Slice

end GameTimeline.Text

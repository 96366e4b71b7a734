import GameTimeline.Text.Bytes
import Mathlib.Data.List.Basic

namespace GameTimeline.Text

theorem loop_bytes (bytes : ByteArray) (i : Nat) (done : List UInt8) :
    ByteArray.toList.loop bytes i done = done.reverse ++ bytes.data.toList.drop i := by
  fun_induction ByteArray.toList.loop bytes i done with
  | case1 i done hi ih =>
      have hdrop : bytes.data.toList.drop i = bytes.get! i :: bytes.data.toList.drop (i + 1) := by
        have hlen : i < bytes.data.toList.length := hi
        rw [List.drop_eq_getElem_cons hlen]
        simp [ByteArray.get!, getElem!_pos bytes.data i hi]
      rw [ih, hdrop]
      simp
  | case2 i done hi =>
      have hlen : bytes.data.toList.length ≤ i := Nat.not_lt.mp hi
      rw [List.drop_eq_nil_of_le hlen, List.append_nil]

theorem toList_bytes (bytes : ByteArray) : bytes.toList = bytes.data.toList :=
  loop_bytes bytes 0 []

theorem ofUtf8?_utf8 (s : String) : ofUtf8? (utf8 s) = some s := by
  have hvalid : s.toByteArray.IsValidUTF8 := s.isValidUTF8
  simp [ofUtf8?, utf8, toList_bytes, String.fromUTF8?, String.fromUTF8, hvalid]

end GameTimeline.Text

import CodeInsight.Files.Access
import Mathlib.Data.List.Lex
import Mathlib.Data.String.Basic
import Mathlib.Tactic.SplitIfs

/-!
# Texts in files

* **a text is decoded from its bytes** (`FileTree.decode_encode`);
* the bytes of a text are those of its characters (`FileTree.encode_eq`), and **texts are in the
  order of their bytes** (`FileTree.encode_lt`).
-/

namespace CodeInsight

/-- What is listed of bytes from a place on is what is there from it on. -/
theorem toList_loop (bytes : ByteArray) (i : Nat) (r : List UInt8) :
    ByteArray.toList.loop bytes i r = r.reverse ++ bytes.data.toList.drop i := by
  induction i, r using ByteArray.toList.loop.induct bytes with
  | case1 i r more ih =>
    have here : i < bytes.data.toList.length := by simpa using more
    have byte : bytes.get! i = bytes.data.toList[i] := by
      have inside : i < bytes.data.size := more
      cases bytes with
      | mk data => exact getElem!_pos data i inside
    rw [ByteArray.toList.loop, if_pos more, ih, List.drop_eq_getElem_cons here, byte]
    simp
  | case2 i r behind =>
    have past : bytes.data.toList.length ≤ i := by simpa using behind
    rw [ByteArray.toList.loop, if_neg behind, List.drop_of_length_le past, List.append_nil]

theorem toArray_toList (bytes : ByteArray) : bytes.toList.toArray = bytes.data := by
  unfold ByteArray.toList
  rw [toList_loop]
  rfl

/-- **A text is decoded from its bytes.** -/
theorem FileTree.decode_encode (s : String) : decode (encode s) = .ok s := by
  have bytes : (⟨s.toUTF8.toList.toArray⟩ : ByteArray) = s.toByteArray :=
    congrArg ByteArray.mk (toArray_toList _)
  have valid : String.fromUTF8? s.toByteArray = some s := dif_pos s.isValidUTF8
  unfold decode encode
  rw [bytes, valid]

theorem FileTree.encode_eq (s : String) : encode s = s.toList.flatMap String.utf8EncodeChar := by
  have bytes : s.toByteArray.data = (s.toList.flatMap String.utf8EncodeChar).toArray := by
    rw [← String.utf8Encode_toList]
    exact List.data_toByteArray
  exact List.toArray_inj ((toArray_toList _).trans bytes)

/-- Of two characters the one with the greater code has the greater bytes, and the difference is
    within the bytes of the character that has fewer. -/
theorem utf8EncodeChar_append_lt {c d : Char} (h : c < d) (x y : List UInt8) :
    String.utf8EncodeChar c ++ x < String.utf8EncodeChar d ++ y := by
  have less : c.val.toNat < d.val.toNat := h
  have bound : d.val.toNat < 1114112 := by
    rcases d.valid with low | ⟨-, high⟩
    · exact Nat.lt_trans low (by decide)
    · exact high
  unfold String.utf8EncodeChar
  generalize c.val.toNat = m at less
  generalize d.val.toNat = n at less bound
  -- what two of the digits in base 64 make together, which omega does not find itself
  have digits {k : Nat} (h : k ≤ n) : k / 64 / 64 = k / 4096 ∧ k / 4096 / 64 = k / 262144 ∧
      k / 262144 % 8 = k / 262144 := by
    omega
  obtain ⟨low, high, top⟩ := digits (Nat.le_of_lt less)
  obtain ⟨low', high', top'⟩ := digits (Nat.le_refl n)
  dsimp only
  split_ifs
  all_goals
    simp (disch := simp only [UInt8.size]; omega) only [List.cons_append, List.nil_append,
      List.cons_lt_cons_iff, UInt8.lt_iff_toNat_lt, ← UInt8.toNat_inj, UInt8.toNat_ofNat_of_lt']
    omega

/-- **Texts are in the order of their bytes.** -/
theorem FileTree.encode_lt {s t : String} (h : s < t) : encode s < encode t := by
  rw [encode_eq, encode_eq]
  rw [String.lt_iff] at h
  generalize s.toList = l, t.toList = l' at h
  induction h with
  | @nil d t =>
    obtain ⟨b, bs, same⟩ := List.exists_cons_of_ne_nil (String.utf8EncodeChar_ne_nil (c := d))
    rw [List.flatMap_cons, same]
    exact List.Lex.nil
  | rel less => exact utf8EncodeChar_append_lt less _ _
  | cons _ ih => exact List.append_left_lt ih

end CodeInsight

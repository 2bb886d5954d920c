/-!
# Characters and their bytes

The first 128 characters have one byte each, which no other character has among its own.
-/
namespace RuleGraph.Text

variable {c : Char} {cs : List Char}

def bytes (cs : List Char) : List UInt8 :=
  cs.flatMap String.utf8EncodeChar

theorem bytes_toList (s : String) : bytes s.toList = s.toUTF8.data.toList := by
  rw [String.toUTF8_eq_toByteArray, ← String.utf8Encode_toList, List.utf8Encode,
    List.data_toByteArray]
  rfl

theorem toList_eq_data (b : ByteArray) : b.toList = b.data.toList := by
  have hloop (i : Nat) (read : List UInt8) :
      ByteArray.toList.loop b i read = read.reverse ++ b.data.toList.drop i := by
    fun_induction ByteArray.toList.loop b i read with
    | case1 i read h ih =>
      have hget : b.get! i = b.data.toList[i] := by
        simp [ByteArray.get!, h]
      rw [ih, List.drop_eq_getElem_cons h, List.reverse_cons, List.append_assoc, hget]
      rfl
    | case2 i read h =>
      rw [List.drop_eq_nil_of_le (Nat.not_lt.1 h), List.append_nil]
  exact hloop 0 []

theorem toList_toUTF8 (s : String) : s.toUTF8.toList = bytes s.toList := by
  rw [toList_eq_data, bytes_toList]

/-- Characters are what their bytes stand for. -/
theorem fromUTF8?_bytes (cs : List Char) :
    String.fromUTF8? ⟨(bytes cs).toArray⟩ = some (String.ofList cs) := by
  have hbytes : (⟨(bytes cs).toArray⟩ : ByteArray) = (String.ofList cs).toByteArray := by
    apply ByteArray.ext
    rw [String.toByteArray_ofList, List.utf8Encode, List.data_toByteArray]
    rfl
  rw [hbytes, String.fromUTF8?, dif_pos (String.ofList cs).isValidUTF8]
  rfl

theorem utf8EncodeChar_of_le (h : c.val ≤ 127) : String.utf8EncodeChar c = [c.toUInt8] :=
  String.utf8EncodeChar_eq_singleton (Char.utf8Size_eq_one_iff.2 h)

/-- Nothing but the first 128 characters has their bytes. -/
theorem le_of_mem_utf8EncodeChar (h : ¬c.val ≤ 127) : ∀ b ∈ String.utf8EncodeChar c, 128 ≤ b := by
  have hbyte (m n v : Nat) (hm : 128 ≤ m) (hn : m + n ≤ 255) :
      128 ≤ UInt8.ofNat (v % (n + 1) + m) := by
    have hlt : v % (n + 1) < n + 1 := Nat.mod_lt v (Nat.succ_pos n)
    have h128 : (128 : UInt8).toNat = 128 := rfl
    rw [UInt8.le_iff_toNat_le, UInt8.toNat_ofNat']
    omega
  have hc : ¬c.val.toNat ≤ 127 := fun hle => h (UInt32.le_iff_toNat_le.2 hle)
  unfold String.utf8EncodeChar
  dsimp only
  rw [if_neg hc]
  have hlast (v : Nat) : 128 ≤ UInt8.ofNat (v % 64 + 128) := hbyte 128 63 v (by decide) (by decide)
  have hlasts (v : Nat) : ∀ b ∈ [UInt8.ofNat (v % 64 + 128)], 128 ≤ b :=
    List.forall_mem_singleton.2 (hlast v)
  split
  · exact List.forall_mem_cons.2 ⟨hbyte 192 31 _ (by decide) (by decide), hlasts _⟩
  · split
    · exact List.forall_mem_cons.2 ⟨hbyte 224 15 _ (by decide) (by decide),
        List.forall_mem_cons.2 ⟨hlast _, hlasts _⟩⟩
    · exact List.forall_mem_cons.2 ⟨hbyte 240 7 _ (by decide) (by decide),
        List.forall_mem_cons.2 ⟨hlast _, List.forall_mem_cons.2 ⟨hlast _, hlasts _⟩⟩⟩

theorem toUInt8_inj {d : Char} (hc : c.val ≤ 127) (hd : d.val ≤ 127)
    (h : c.toUInt8 = d.toUInt8) : c = d := by
  have hnat := congrArg UInt8.toNat h
  rw [UInt32.le_iff_toNat_le] at hc hd
  have h127 : (127 : UInt32).toNat = 127 := rfl
  simp only [Char.toUInt8, UInt32.toNat_toUInt8] at hnat
  refine Char.ext (UInt32.toNat_inj.1 ?_)
  omega

theorem toUInt8_lt {c : Char} (hc : c.val ≤ 127) : c.toUInt8 < 128 := by
  rw [UInt32.le_iff_toNat_le] at hc
  have h127 : (127 : UInt32).toNat = 127 := rfl
  have h128 : (128 : UInt8).toNat = 128 := rfl
  rw [UInt8.lt_iff_toNat_lt, Char.toUInt8, UInt32.toNat_toUInt8]
  omega

theorem bytes_cons (c : Char) (cs : List Char) :
    bytes (c :: cs) = String.utf8EncodeChar c ++ bytes cs := rfl

theorem bytes_cons_of_le (hc : c.val ≤ 127) (cs : List Char) :
    bytes (c :: cs) = c.toUInt8 :: bytes cs := by
  rw [bytes_cons, utf8EncodeChar_of_le hc, List.singleton_append]

@[simp] theorem bytes_append (front back : List Char) :
    bytes (front ++ back) = bytes front ++ bytes back :=
  List.flatMap_append

end RuleGraph.Text

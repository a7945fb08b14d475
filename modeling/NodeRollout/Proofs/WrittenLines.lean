import NodeRollout.Proofs.Framing
import NodeRollout.Proofs.JsonText

/-! Lines that were written. Text without control characters has no byte that ends a line, so a
stream of such texts with a line feed after each is cut where it was put together. -/
namespace NodeRollout

section Bytes

theorem toList_loop_eq (bytes : ByteArray) (i : Nat) (taken : List UInt8) :
    ByteArray.toList.loop bytes i taken = taken.reverse ++ bytes.data.toList.drop i := by
  fun_induction ByteArray.toList.loop bytes i taken with
  | case1 i taken hi ih =>
    have hlength : i < bytes.data.toList.length := hi
    have hget : bytes.get! i = bytes.data.toList[i] := by
      show bytes.data[i]! = _
      rw [getElem!_pos bytes.data i hi]
      rfl
    rw [ih, List.drop_eq_getElem_cons hlength, hget]
    simp
  | case2 i taken hi =>
    have hnone : bytes.data.toList.drop i = [] := List.drop_eq_nil_of_le (Nat.not_lt.mp hi)
    rw [hnone, List.append_nil]

theorem toList_eq_data (bytes : ByteArray) : bytes.toList = bytes.data.toList :=
  toList_loop_eq bytes 0 []

theorem length_toUTF8 (text : String) : text.toUTF8.toList.length = text.utf8ByteSize := by
  rw [toList_eq_data]
  rfl

/-- The bytes of a text are those of its characters, one after another. -/
theorem toList_toUTF8 (text : String) :
    text.toUTF8.toList = text.toList.flatMap String.utf8EncodeChar := by
  rw [toList_eq_data]
  show text.toByteArray.data.toList = _
  rw [← String.utf8Encode_toList, List.utf8Encode.eq_1, List.data_toByteArray]

theorem ofBytes?_toUTF8 (text : String) : Text.ofBytes? text.toUTF8.toList = some text := by
  have hbytes : ByteArray.mk text.toUTF8.toList.toArray = text.toByteArray := by
    rw [toList_eq_data]
    rfl
  rw [Text.ofBytes?, hbytes, String.fromUTF8?, dif_pos text.isValidUTF8]
  rfl

/-- The bytes of a character that is no control character are none either. -/
theorem le_of_mem_utf8EncodeChar {c : Char} (h : 0x20 ≤ c.toNat) :
    ∀ b ∈ String.utf8EncodeChar c, 0x20 ≤ b.toNat := by
  have hbyte (n : Nat) (hlow : 0x20 ≤ n) (hhigh : n < 256) : 0x20 ≤ (UInt8.ofNat n).toNat := by
    rw [UInt8.toNat_ofNat_of_lt' hhigh]
    exact hlow
  have hcode : 0x20 ≤ c.val.toNat := h
  rw [String.utf8EncodeChar.eq_1]
  -- one case for each number of bytes; every byte of a longer form is at least 128
  split_ifs
  · simpa using hbyte _ hcode (by omega)
  · simp only [List.forall_mem_cons]
    exact ⟨hbyte _ (by omega) (by omega), hbyte _ (by omega) (by omega), nofun⟩
  · simp only [List.forall_mem_cons]
    exact ⟨hbyte _ (by omega) (by omega), hbyte _ (by omega) (by omega),
      hbyte _ (by omega) (by omega), nofun⟩
  · simp only [List.forall_mem_cons]
    exact ⟨hbyte _ (by omega) (by omega), hbyte _ (by omega) (by omega),
      hbyte _ (by omega) (by omega), hbyte _ (by omega) (by omega), nofun⟩

theorem not_mem_toUTF8 {text : String} (h : Json.Visible text.toList) {b : UInt8}
    (hb : b.toNat < 0x20) : b ∉ text.toUTF8.toList := by
  intro hmem
  rw [toList_toUTF8] at hmem
  obtain ⟨c, hc, hcb⟩ := List.mem_flatMap.mp hmem
  have hlow : 0x20 ≤ b.toNat := le_of_mem_utf8EncodeChar (h c hc) b hcb
  omega

end Bytes

namespace LineReader

/-- What a line that was written is read as: the line, unless it is too long. -/
def sized (line : String) : Framed :=
  if maxLength < line.utf8ByteSize then .error .tooLong else .ok line

theorem sized_of_le {line : String} (h : line.utf8ByteSize ≤ maxLength) : sized line = .ok line :=
  if_neg (Nat.not_lt.mpr h)

theorem sized_of_lt {line : String} (h : maxLength < line.utf8ByteSize) :
    sized line = .error .tooLong :=
  if_pos h

theorem upToFault_ok (lines : List String) : upToFault (lines.map .ok) = lines.map .ok := by
  induction lines with
  | nil => rfl
  | cons line lines ih =>
    show Except.ok line :: upToFault (lines.map .ok) = _
    rw [ih]
    rfl

theorem rawLines_flatMap {lines : List (List UInt8)} (h : ∀ line ∈ lines, lineFeed ∉ line) :
    rawLines (lines.flatMap (· ++ [lineFeed])) = lines := by
  induction lines with
  | nil => rfl
  | cons line lines ih =>
    obtain ⟨hline, hlines⟩ := List.forall_mem_cons.mp h
    have hsplit : (line ++ lineFeed :: lines.flatMap (· ++ [lineFeed])).splitOn lineFeed =
        line :: (lines.flatMap (· ++ [lineFeed])).splitOn lineFeed :=
      List.splitOn_append_cons_self_of_not_mem hline _
    have hrest : (lines.flatMap (· ++ [lineFeed])).splitOn lineFeed ≠ [] :=
      List.splitOnP_ne_nil _ _
    rw [List.flatMap_cons, List.append_assoc, List.singleton_append, rawLines, hsplit,
      linesOfParts_cons line hrest]
    exact congrArg (line :: ·) (ih hlines)

theorem frame_toUTF8 {line : String} (h : carriageReturn ∉ line.toUTF8.toList) :
    frame line.toUTF8.toList = sized line := by
  have hdrop : dropReturn line.toUTF8.toList = line.toUTF8.toList := by
    refine if_neg fun hlast => h ?_
    exact List.mem_of_getLast? hlast
  rw [frame, sized, hdrop, ofBytes?_toUTF8, length_toUTF8]

/-- However the stream is cut, what was written is read line by line, up to one that is too long. -/
theorem lines_written {lines : List String} {pieces : List (List UInt8)}
    (hvisible : ∀ line ∈ lines, Json.Visible line.toList)
    (hpieces : pieces.flatten = lines.flatMap lineBytes) :
    LineReader.lines pieces = upToFault (lines.map sized) := by
  have hflat : lines.flatMap lineBytes =
      (lines.map fun line => line.toUTF8.toList).flatMap (· ++ [lineFeed]) := by
    rw [List.flatMap_map]
    rfl
  have hraw : rawLines pieces.flatten = lines.map fun line => line.toUTF8.toList := by
    rw [hpieces, hflat]
    apply rawLines_flatMap
    intro bytes hbytes
    obtain ⟨line, hline, rfl⟩ := List.mem_map.mp hbytes
    exact not_mem_toUTF8 (hvisible line hline) (by decide)
  have hframe : (rawLines pieces.flatten).map frame = lines.map sized := by
    rw [hraw, List.map_map]
    apply List.map_congr_left
    intro line hline
    exact frame_toUTF8 (not_mem_toUTF8 (hvisible line hline) (by decide))
  rw [lines_eq, hframe]

end LineReader

end NodeRollout

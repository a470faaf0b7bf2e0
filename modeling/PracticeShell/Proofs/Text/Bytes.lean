import PracticeShell.Text.Utf8

/-!
# Bytes that are text

The bytes of a text are read as that text, and text that is read is written as it was if the bytes were
valid (`encode_decode_iff`). Bytes can be cut before a line feed: the part before it is valid if the
whole is (`isValid_of_append_lineFeed`). The machine that takes one byte after the other completes each
character of a text with its last byte and owes nothing at the end (`run_encode`).
-/

namespace PracticeShell.Text.Utf8

variable {bytes before after : ByteArray}

/-- The bytes of a text are read as the text. -/
theorem fromUTF8?_encode (text : String) : String.fromUTF8? (encode text) = some text := by
  unfold encode String.fromUTF8?
  rw [String.toUTF8_eq_toByteArray]
  exact dif_pos text.isValidUTF8

@[simp]
theorem decode_encode (text : String) : decode (encode text) = text := by
  rw [decode, fromUTF8?_encode]

@[simp]
theorem isValid_encode (text : String) : isValid (encode text) = true := by
  rw [isValid, fromUTF8?_encode, Option.isSome_some]

theorem encode_injective : Function.Injective encode := fun s t h => by
  rw [← decode_encode s, h, decode_encode]

theorem encode_append (s t : String) : encode (s ++ t) = encode s ++ encode t := by
  simp only [encode, String.toUTF8_eq_toByteArray, String.toByteArray_append]

/-- Valid bytes are those of a text. -/
theorem isValid_iff : isValid bytes = true ↔ ∃ text, encode text = bytes := by
  constructor
  · intro h
    rw [isValid, String.fromUTF8?] at h
    split at h
    · rename_i hvalid
      exact ⟨String.fromUTF8 bytes hvalid, rfl⟩
    · cases h
  · rintro ⟨text, rfl⟩
    exact isValid_encode text

/-- Text is written as it was read exactly if the bytes were valid. -/
theorem encode_decode_iff : encode (decode bytes) = bytes ↔ isValid bytes = true := by
  rw [isValid_iff]
  constructor
  · exact fun h => ⟨_, h⟩
  · rintro ⟨text, rfl⟩
    rw [decode_encode]

/-- A line feed is a character by itself, so bytes can be cut before it. -/
theorem isValid_of_append_lineFeed (h : isValid (before ++ encode "\n" ++ after) = true) :
    isValid before = true := by
  obtain ⟨text, htext⟩ := isValid_iff.1 h
  rw [encode, String.toUTF8_eq_toByteArray, ByteArray.append_assoc] at htext
  have hsize : text.toByteArray.size = before.size + ((encode "\n").size + after.size) := by
    rw [htext, ByteArray.size_append, ByteArray.size_append]
  have hfeed : (encode "\n").size = 1 := rfl
  have hlast : (⟨before.size⟩ : String.Pos.Raw) < text.rawEndPos := by
    rw [String.Pos.Raw.lt_iff, String.byteIdx_rawEndPos, String.utf8ByteSize, hsize]
    dsimp only
    omega
  have hbyte : text.getUTF8Byte ⟨before.size⟩ hlast = 10 := by
    simp only [String.getUTF8Byte, htext]
    rw [ByteArray.getElem_append_right (Nat.le_refl _)]
    simp only [Nat.sub_self]
    rw [ByteArray.getElem_append_left (by rw [hfeed]; omega)]
    rfl
  have hcut : String.Pos.Raw.IsValid text ⟨before.size⟩ := by
    refine String.Pos.Raw.isValid_iff_isUTF8FirstByte.2 (.inr ⟨hlast, ?_⟩)
    rw [hbyte]
    exact .inl rfl
  have hvalid := (String.Pos.Raw.isValid_iff_isValidUTF8_extract_zero.1 hcut).2
  rw [htext, ByteArray.extract_append_eq_left rfl] at hvalid
  rw [isValid, String.fromUTF8?, dif_pos hvalid, Option.isSome_some]

/-- Bytes end with a line feed exactly if one has been put after others. -/
theorem back?_eq_lineFeed_iff :
    bytes.data.back? = some 10 ↔ ∃ before, bytes = before ++ encode "\n" := by
  rw [Array.back?_eq_some_iff]
  constructor
  · rintro ⟨before, hbefore⟩
    refine ⟨⟨before⟩, ByteArray.ext ?_⟩
    rw [hbefore, ByteArray.data_append, Array.push_eq_append]
    rfl
  · rintro ⟨before, rfl⟩
    refine ⟨before.data, ?_⟩
    rw [ByteArray.data_append, Array.push_eq_append]
    rfl

/-- The bytes of a text end with a line feed exactly if the text does. -/
theorem back?_encode_iff (text : String) :
    (encode text).data.back? = some 10 ↔ text.toList.getLast? = some '\n' := by
  rw [back?_eq_lineFeed_iff, List.getLast?_eq_some_iff]
  constructor
  · rintro ⟨before, hbefore⟩
    have hvalid : isValid before = true := by
      have hwhole : isValid (before ++ encode "\n" ++ .empty) = true := by
        rw [ByteArray.append_empty, ← hbefore]
        exact isValid_encode text
      exact isValid_of_append_lineFeed hwhole
    obtain ⟨shorter, rfl⟩ := isValid_iff.1 hvalid
    rw [← encode_append] at hbefore
    exact ⟨shorter.toList, by rw [encode_injective hbefore, String.toList_append]; rfl⟩
  · rintro ⟨cs, hcs⟩
    refine ⟨encode (String.ofList cs), ?_⟩
    rw [← encode_append]
    refine congrArg encode (String.toList_injective ?_)
    rw [hcs, String.toList_append, String.toList_ofList]
    rfl

theorem run_append (s : State) (first second : List UInt8) : run s (first ++ second) =
    ((run s first).1 ++ (run (run s first).2 second).1, (run (run s first).2 second).2) := by
  induction first generalizing s with
  | nil => rfl
  | cons b first ih =>
      simp only [List.cons_append, run]
      rw [ih, List.append_assoc]

theorem run_flatten_cons (s : State) (chunk : List UInt8) (chunks : List (List UInt8)) :
    (run s (chunk :: chunks).flatten).1 =
      (run s chunk).1 ++ (run (run s chunk).2 chunks.flatten).1 := by
  rw [List.flatten_cons, run_append]

section

variable {owed low high code b : Nat}

/-- A first byte that one byte must follow. -/
theorem first_two (h : 0xC2 ≤ b ∧ b ≤ 0xDF) : first b = ([], .inside 0 0x80 0xBF (b - 0xC0)) := by
  rw [first, if_neg (by omega), if_pos h]

/-- A first byte that two bytes must follow. Neither what fits into fewer bytes nor a surrogate may be
spelled so. -/
theorem first_three (h : 0xE0 ≤ b ∧ b ≤ 0xEF) : first b =
    ([], .inside 1 (if b = 0xE0 then 0xA0 else 0x80) (if b = 0xED then 0x9F else 0xBF)
      (b - 0xE0)) := by
  rw [first, if_neg (by omega), if_neg (by omega)]
  by_cases hlow : b = 0xE0
  · rw [if_pos hlow, if_pos hlow, if_neg (by omega), hlow]
  · rw [if_neg hlow, if_neg hlow]
    by_cases hhigh : b = 0xED
    · rw [if_pos hhigh, if_pos hhigh, hhigh]
    · rw [if_neg hhigh, if_neg hhigh, if_pos (by omega)]

/-- A first byte that three bytes must follow. -/
theorem first_four (h : 0xF0 ≤ b ∧ b ≤ 0xF4) : first b =
    ([], .inside 2 (if b = 0xF0 then 0x90 else 0x80) (if b = 0xF4 then 0x8F else 0xBF)
      (b - 0xF0)) := by
  rw [first, if_neg (by omega), if_neg (by omega), if_neg (by omega), if_neg (by omega),
    if_neg (by omega)]
  by_cases hlow : b = 0xF0
  · rw [if_pos hlow, if_pos hlow, if_neg (by omega), hlow]
  · rw [if_neg hlow, if_neg hlow]
    by_cases hhigh : b = 0xF4
    · rw [if_neg (by omega), if_pos hhigh, if_pos hhigh, hhigh]
    · rw [if_pos (by omega), if_neg hhigh]

theorem toNat_ofNat_of_lt (hb : b < 256) : (UInt8.ofNat b).toNat = b := by
  simp [Nat.mod_eq_of_lt hb]

theorem run_first (hb : b < 256) {s : State} (h : first b = ([], s)) (rest : List UInt8) :
    run .start (UInt8.ofNat b :: rest) = run s rest := by
  rw [run, step, toNat_ofNat_of_lt hb]
  simp [h]

/-- A byte that continues a character, but is not its last. -/
theorem run_inside (hb : b < 256) (h : low ≤ b ∧ b ≤ high) (rest : List UInt8) :
    run (.inside (owed + 1) low high code) (UInt8.ofNat b :: rest) =
      run (.inside owed 0x80 0xBF (code * 64 + (b - 0x80))) rest := by
  rw [run, step]
  dsimp only
  rw [toNat_ofNat_of_lt hb, if_pos h]
  simp

/-- The last byte of a character. -/
theorem run_last (hb : b < 256) (h : low ≤ b ∧ b ≤ high) :
    run (.inside 0 low high code) [UInt8.ofNat b] =
      ([Char.ofNat (code * 64 + (b - 0x80))], .start) := by
  rw [run, step]
  dsimp only
  rw [toNat_ofNat_of_lt hb, if_pos h]
  simp [run]

end

/-- The bytes of a character are read as the character. -/
theorem run_utf8EncodeChar (c : Char) : run .start (String.utf8EncodeChar c) = ([c], .start) := by
  have hvalid : c.val.toNat < 0xD800 ∨ 0xDFFF < c.val.toNat ∧ c.val.toNat < 0x110000 := c.valid
  have hc : ∀ n, n = c.val.toNat → Char.ofNat n = c := by
    rintro n rfl
    exact Char.ofNat_toNat c
  unfold String.utf8EncodeChar
  generalize c.val.toNat = v at hvalid hc ⊢
  dsimp only
  split
  · rw [run, step, toNat_ofNat_of_lt (by omega), first, if_pos (by omega), hc v rfl]
    rfl
  split
  · rw [run_first (by omega) (first_two (by omega)), run_last (by omega) (by omega), hc _ (by omega)]
  split
  · rw [run_first (by omega) (first_three (by omega)),
      run_inside (by omega) (by split <;> split <;> omega), run_last (by omega) (by omega),
      hc _ (by omega)]
  · rw [run_first (by omega) (first_four (by omega)),
      run_inside (by omega) (by split <;> split <;> omega), run_inside (by omega) (by omega),
      run_last (by omega) (by omega), hc _ (by omega)]

theorem toList_loop_eq (bytes : ByteArray) (i : Nat) (before : List UInt8) :
    ByteArray.toList.loop bytes i before = before.reverse ++ bytes.data.toList.drop i := by
  fun_induction ByteArray.toList.loop bytes i before with
  | case1 i before h ih =>
      have hi : i < bytes.data.toList.length := by simpa using h
      rw [ih, List.drop_eq_getElem_cons hi]
      simp [ByteArray.get!, h]
  | case2 i before h =>
      have hi : bytes.data.toList.length ≤ i := Nat.le_of_not_lt h
      rw [List.drop_eq_nil_of_le hi, List.append_nil]

/-- The bytes of a text are those of its characters. -/
theorem toList_encode (text : String) :
    (encode text).toList = text.toList.flatMap String.utf8EncodeChar := by
  have htext : encode text = text.toList.utf8Encode := by
    rw [encode, String.toUTF8_eq_toByteArray, ← String.toByteArray_ofList, String.ofList_toList]
  rw [ByteArray.toList, toList_loop_eq, List.reverse_nil, List.nil_append, List.drop_zero, htext,
    List.utf8Encode, List.toList_data_toByteArray]

/-- The bytes of a text are read as its characters, and nothing is owed after them. -/
theorem run_encode (text : String) : run .start (encode text).toList = (text.toList, .start) := by
  rw [toList_encode]
  induction text.toList with
  | nil => rfl
  | cons c cs ih => rw [List.flatMap_cons, run_append, run_utf8EncodeChar, ih, List.singleton_append]

/-- A text has at least as many bytes as characters. -/
theorem length_le_length_encode (text : String) :
    text.toList.length ≤ (encode text).toList.length := by
  rw [toList_encode]
  induction text.toList with
  | nil => exact Nat.le_refl _
  | cons c cs ih =>
      have hsize := c.utf8Size_pos
      rw [List.flatMap_cons, List.length_append, List.length_cons, String.length_utf8EncodeChar]
      omega

end PracticeShell.Text.Utf8

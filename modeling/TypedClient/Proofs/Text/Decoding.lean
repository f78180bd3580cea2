import TypedClient.Text.Utf8

/-! Reading UTF-8 back. The strict reader accepts exactly the bytes of some text, and reads that
text; the lenient reader reads the bytes of a text as the strict one does. -/

namespace TypedClient.Text

/-! ### Characters -/

@[simp] theorem utf8_cons (c : Char) (cs : List Char) :
    utf8 (c :: cs) = String.utf8EncodeChar c ++ utf8 cs := List.flatMap_cons

@[simp] theorem utf8_append (cs ds : List Char) : utf8 (cs ++ ds) = utf8 cs ++ utf8 ds :=
  List.flatMap_append

theorem decodeChar?_encode (c : Char) (bytes : List UInt8) :
    decodeChar? (String.utf8EncodeChar c ++ bytes) = some c := by
  rw [decodeChar?, List.toByteArray_append]
  exact ByteArray.utf8DecodeChar?_utf8EncodeChar_append

theorem encode_append_drop {bytes : List UInt8} {c : Char} (h : decodeChar? bytes = some c) :
    String.utf8EncodeChar c ++ bytes.drop c.utf8Size = bytes := by
  have hencode : String.utf8EncodeChar c = bytes.take c.utf8Size := by
    rw [← List.toByteArray_inj, String.toByteArray_utf8EncodeChar_of_utf8DecodeChar?_eq_some h]
    ext1
    simp
  rw [hencode, List.take_append_drop]

theorem drop_encode (c : Char) (bytes : List UInt8) :
    (String.utf8EncodeChar c ++ bytes).drop c.utf8Size = bytes := by
  rw [← String.length_utf8EncodeChar, List.drop_left]

theorem encode_append_ne_nil (c : Char) (bytes : List UInt8) :
    String.utf8EncodeChar c ++ bytes ≠ [] := by simp

/-- A character takes a byte at least, so that one unit of fuel pays for it. -/
theorem fuel_of_encode {c : Char} {bytes : List UInt8} {fuel : Nat}
    (h : (String.utf8EncodeChar c ++ bytes).length ≤ fuel) :
    ∃ n, fuel = n + 1 ∧ bytes.length ≤ n := by
  have hpos : 0 < (String.utf8EncodeChar c).length :=
    List.length_pos_iff.2 String.utf8EncodeChar_ne_nil
  rw [List.length_append] at h
  exact ⟨fuel - 1, by omega, by omega⟩

/-- Where the bytes of a text begin with those of another, the text begins with it. -/
theorem exists_of_utf8_eq_append {ds cs : List Char} {bytes : List UInt8}
    (h : utf8 ds = utf8 cs ++ bytes) : ∃ rest, ds = cs ++ rest ∧ utf8 rest = bytes := by
  induction cs generalizing ds with
  | nil => exact ⟨ds, rfl, h⟩
  | cons c cs ih =>
    rw [utf8_cons, List.append_assoc] at h
    cases ds with
    | nil => exact absurd h.symm (encode_append_ne_nil c _)
    | cons d ds =>
      rw [utf8_cons] at h
      have hfirst : some d = some c := by
        rw [← decodeChar?_encode d (utf8 ds), h, decodeChar?_encode]
      obtain rfl := Option.some.inj hfirst
      obtain ⟨rest, rfl, hrest⟩ := ih (List.append_cancel_left h)
      exact ⟨rest, rfl, hrest⟩

/-- The bytes of a character that is not ASCII are no ASCII bytes. -/
theorem mem_encode_iff {b : UInt8} (hb : b.toNat < 128) {c : Char} :
    b ∈ String.utf8EncodeChar c ↔ c.toNat = b.toNat := by
  have hofNat : ∀ n, n < 256 → (b = UInt8.ofNat n ↔ b.toNat = n) := fun n hn => by
    rw [← UInt8.toNat_inj, UInt8.toNat_ofNat_of_lt' hn]
  show _ ↔ c.val.toNat = b.toNat
  unfold String.utf8EncodeChar
  dsimp only
  generalize c.val.toNat = v
  split
  · rw [List.mem_singleton, hofNat v (by omega)]
    exact eq_comm
  · simp only [apply_ite (b ∈ ·), List.mem_cons, List.not_mem_nil, or_false]
    rw [hofNat _ (by omega), hofNat _ (by omega), hofNat _ (by omega), hofNat _ (by omega),
      hofNat _ (by omega), hofNat _ (by omega)]
    split
    · omega
    · split <;> omega

/-- An ASCII character of a text is a byte of it. -/
theorem byte_mem_utf8_iff {c : Char} (hc : c.toNat < 128) {cs : List Char} :
    UInt8.ofNat c.toNat ∈ utf8 cs ↔ c ∈ cs := by
  have hbyte : (UInt8.ofNat c.toNat).toNat = c.toNat :=
    UInt8.toNat_ofNat_of_lt' (Nat.lt_trans hc (by decide))
  rw [utf8, List.mem_flatMap]
  constructor
  · rintro ⟨d, hd, h⟩
    rw [mem_encode_iff (by omega), hbyte] at h
    rwa [← Char.ofNat_toNat c, ← h, Char.ofNat_toNat]
  · intro h
    exact ⟨c, h, (mem_encode_iff (by omega)).2 hbyte.symm⟩

/-! ### The strict reader -/

theorem decodeFrom_utf8 {cs : List Char} {fuel : Nat} (hfuel : (utf8 cs).length ≤ fuel)
    (index : Nat) : decodeFrom fuel index (utf8 cs) = .ok cs := by
  induction cs generalizing fuel index with
  | nil => cases fuel <;> rfl
  | cons c cs ih =>
    rw [utf8_cons] at hfuel ⊢
    obtain ⟨fuel, rfl, hrest⟩ := fuel_of_encode hfuel
    rw [decodeFrom.eq_3 _ _ _ (encode_append_ne_nil c _), decodeChar?_encode]
    simp only [drop_encode]
    rw [ih hrest]
    rfl

theorem utf8_of_decodeFrom {fuel index : Nat} {bytes : List UInt8} {cs : List Char}
    (hfuel : bytes.length ≤ fuel) (h : decodeFrom fuel index bytes = .ok cs) :
    utf8 cs = bytes := by
  induction fuel generalizing index bytes cs with
  | zero =>
    obtain rfl : [] = cs := by simpa [decodeFrom] using h
    exact (List.length_eq_zero_iff.1 (Nat.le_zero.1 hfuel)).symm
  | succ fuel ih =>
    by_cases hbytes : bytes = []
    · subst hbytes
      obtain rfl : [] = cs := by simpa [decodeFrom] using h
      rfl
    · rw [decodeFrom.eq_3 _ _ _ hbytes] at h
      cases hc : decodeChar? bytes with
      | none => simp [hc] at h
      | some c =>
        simp only [hc] at h
        cases hrest : decodeFrom fuel (index + c.utf8Size) (bytes.drop c.utf8Size) with
        | error fault => simp [hrest, Except.map] at h
        | ok rest =>
          obtain rfl : c :: rest = cs := by simpa [hrest, Except.map] using h
          have hpos : 0 < c.utf8Size := c.utf8Size_pos
          have hlength : (bytes.drop c.utf8Size).length ≤ fuel := by
            rw [List.length_drop]
            omega
          rw [utf8_cons, ih hlength hrest, encode_append_drop hc]

/-- The strict reader accepts the bytes of a text only, and reads that text. -/
theorem decode?_eq_ok_iff {bytes : List UInt8} {t : String} :
    decode? bytes = .ok t ↔ utf8 t.toList = bytes := by
  constructor
  · intro h
    cases hread : decodeFrom bytes.length 0 bytes with
    | error fault => simp [decode?, hread, Except.map] at h
    | ok cs =>
      obtain rfl : String.ofList cs = t := by simpa [decode?, hread, Except.map] using h
      rw [String.toList_ofList]
      exact utf8_of_decodeFrom (Nat.le_refl _) hread
  · rintro rfl
    rw [decode?, decodeFrom_utf8 (Nat.le_refl _)]
    simp [Except.map]

/-! ### The lenient reader -/

theorem decodeLossyFrom_utf8 {cs : List Char} {fuel : Nat} (hfuel : (utf8 cs).length ≤ fuel) :
    decodeLossyFrom fuel (utf8 cs) = cs := by
  induction cs generalizing fuel with
  | nil => cases fuel <;> rfl
  | cons c cs ih =>
    rw [utf8_cons] at hfuel ⊢
    obtain ⟨fuel, rfl, hrest⟩ := fuel_of_encode hfuel
    rw [decodeLossyFrom.eq_3 _ _ (encode_append_ne_nil c _), decodeChar?_encode]
    simp only [drop_encode]
    rw [ih hrest]

/-- The lenient reader reads the bytes of a text as that text. -/
theorem decodeLossy_utf8 (cs : List Char) : decodeLossy (utf8 cs) = String.ofList cs := by
  rw [decodeLossy, decodeLossyFrom_utf8 (Nat.le_refl _)]

end TypedClient.Text

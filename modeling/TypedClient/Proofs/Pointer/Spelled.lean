import TypedClient.Proofs.Pointer.Component

/-! How names are spelled in references. A name is escaped first, which makes it one segment: `~0`
for a tilde, then `~1` for a slash. Then any bytes of it, each percent sign among them, may be
written as a percent sign and two hexadecimal digits. Main statement: the name that is read from a
reference is the one that its last segment spells, whatever characters the name has, and whatever
stands before. -/

namespace TypedClient.Pointer

/-! ### Tildes and slashes -/

/-- Writes `meaning` as a tilde followed by `digit`. -/
def escapeTilde (digit meaning : Char) (cs : List Char) : List Char :=
  cs.flatMap fun c => if c = meaning then ['~', digit] else [c]

/-- A name as one segment: tildes first, then slashes. -/
def escape (cs : List Char) : List Char := escapeTilde '1' '/' (escapeTilde '0' '~' cs)

theorem escapeTilde_cons (digit meaning c : Char) (cs : List Char) :
    escapeTilde digit meaning (c :: cs) =
      (if c = meaning then ['~', digit] else [c]) ++ escapeTilde digit meaning cs :=
  List.flatMap_cons

theorem unescapeTilde_self (digit meaning : Char) (cs : List Char) :
    unescapeTilde digit meaning ('~' :: digit :: cs) =
      meaning :: unescapeTilde digit meaning cs := by
  rw [unescapeTilde, if_pos rfl]

theorem unescapeTilde_other {digit d : Char} (h : d ≠ digit) (meaning : Char) (cs : List Char) :
    unescapeTilde digit meaning ('~' :: d :: cs) =
      '~' :: unescapeTilde digit meaning (d :: cs) := by
  rw [unescapeTilde, if_neg h]

theorem unescapeTilde_plain {c : Char} (h : c ≠ '~') (digit meaning : Char) (cs : List Char) :
    unescapeTilde digit meaning (c :: cs) = c :: unescapeTilde digit meaning cs := by
  rw [unescapeTilde]
  rintro d rest rfl
  exact absurd rfl h

/-- Slashes come back, and what stands for tildes stays: no tilde has a `1` after it, since each
has a `0`. -/
theorem unescape_slashes (cs : List Char) :
    unescapeTilde '1' '/' (escape cs) = escapeTilde '0' '~' cs := by
  unfold escape
  induction cs with
  | nil => rfl
  | cons c cs ih =>
    rw [escapeTilde_cons]
    by_cases htilde : c = '~'
    · rw [if_pos htilde, List.cons_append, List.singleton_append, escapeTilde_cons,
        if_neg (by decide), escapeTilde_cons, if_neg (by decide), List.singleton_append,
        List.singleton_append, unescapeTilde_other (by decide), unescapeTilde_plain (by decide), ih]
    · rw [if_neg htilde, List.singleton_append, escapeTilde_cons]
      by_cases hslash : c = '/'
      · rw [if_pos hslash, List.cons_append, List.singleton_append, unescapeTilde_self, ih, hslash]
      · rw [if_neg hslash, List.singleton_append, unescapeTilde_plain htilde, ih]

theorem unescape_tildes (cs : List Char) :
    unescapeTilde '0' '~' (escapeTilde '0' '~' cs) = cs := by
  induction cs with
  | nil => rfl
  | cons c cs ih =>
    rw [escapeTilde_cons]
    by_cases htilde : c = '~'
    · rw [if_pos htilde, List.cons_append, List.singleton_append, unescapeTilde_self, ih, htilde]
    · rw [if_neg htilde, List.singleton_append, unescapeTilde_plain htilde, ih]

theorem unescape_escape (cs : List Char) : unescape (escape cs) = cs := by
  rw [unescape, unescape_slashes, unescape_tildes]

theorem slash_not_mem_escape (cs : List Char) : '/' ∉ escape cs := by
  intro h
  obtain ⟨c, -, hc⟩ := List.mem_flatMap.1 h
  split at hc
  · simp at hc
  · next hslash => exact hslash (List.mem_singleton.1 hc).symm

/-! ### Percent signs -/

/-- The bytes that stand for a hexadecimal digit, as a small letter and as a capital. -/
def hexDigits (n : Nat) : List UInt8 :=
  [n.digitChar, n.digitChar.toUpper].map fun c => UInt8.ofNat c.toNat

/-- The second bytes spell the first ones: any of them, each percent sign among them, are written
as a percent sign and two hexadecimal digits. -/
inductive Spells : List UInt8 → List UInt8 → Prop where
  | nil : Spells [] []
  | plain {b : UInt8} {bytes spelling : List UInt8} (hb : b ≠ 0x25) (h : Spells bytes spelling) :
    Spells (b :: bytes) (b :: spelling)
  | coded {b high low : UInt8} {bytes spelling : List UInt8}
    (hhigh : high ∈ hexDigits (b.toNat / 16)) (hlow : low ∈ hexDigits (b.toNat % 16))
    (h : Spells bytes spelling) : Spells (b :: bytes) (0x25 :: high :: low :: spelling)

theorem hexValue?_of_mem_hexDigits {n : Nat} (hn : n < 16) {b : UInt8} (h : b ∈ hexDigits n) :
    Json.hexValue? (Char.ofNat b.toNat) = some n := by
  have hall : ∀ n < 16, ∀ b ∈ hexDigits n, Json.hexValue? (Char.ofNat b.toNat) = some n := by
    decide +kernel
  exact hall n hn b h

theorem ne_slash_of_mem_hexDigits {n : Nat} (hn : n < 16) {b : UInt8} (h : b ∈ hexDigits n) :
    b ≠ 0x2F := by
  have hall : ∀ n < 16, ∀ b ∈ hexDigits n, b ≠ 0x2F := by decide +kernel
  exact hall n hn b h

/-- A byte is made of two hexadecimal digits. -/
theorem digits_lt (b : UInt8) : b.toNat / 16 < 16 ∧ b.toNat % 16 < 16 := by
  have := b.toNat_lt
  omega

namespace Spells

variable {bytes spelling : List UInt8}

/-- A spelling stands for what it spells. Percent signs that are read are not read again, since
decoding goes on behind them. -/
theorem percentDecode_eq (h : Spells bytes spelling) : percentDecode spelling = bytes := by
  induction h with
  | nil => rfl
  | plain hb _ ih => rw [percentDecode_cons hb, ih]
  | @coded b high low _ _ hhigh hlow _ ih =>
    have hbyte : UInt8.ofNat (16 * (b.toNat / 16) + b.toNat % 16) = b := by
      rw [Nat.div_add_mod, UInt8.ofNat_toNat]
    rw [percentDecode, if_pos rfl, hexValue?_of_mem_hexDigits (digits_lt b).1 hhigh,
      hexValue?_of_mem_hexDigits (digits_lt b).2 hlow]
    simp only [hbyte, ih]

/-- A spelling has no slash where there is none in what it spells. -/
theorem slash_not_mem (h : Spells bytes spelling) (hbytes : 0x2F ∉ bytes) : 0x2F ∉ spelling := by
  induction h with
  | nil => exact hbytes
  | plain hb _ ih =>
    rw [List.mem_cons, not_or] at hbytes ⊢
    exact ⟨hbytes.1, ih hbytes.2⟩
  | @coded b high low _ _ hhigh hlow _ ih =>
    rw [List.mem_cons, not_or] at hbytes
    simp only [List.mem_cons, not_or]
    exact ⟨by decide, (ne_slash_of_mem_hexDigits (digits_lt b).1 hhigh).symm,
      (ne_slash_of_mem_hexDigits (digits_lt b).2 hlow).symm, ih hbytes.2⟩

end Spells

/-! ### Names -/

/-- **The name that is read from a reference is the one that its last segment spells.** -/
theorem componentName_of_spells (name start spelling : String)
    (h : Spells (Text.utf8 (escape name.toList)) (Text.utf8 spelling.toList)) :
    componentName (start ++ "/" ++ spelling) = name := by
  have hslash : '/' ∉ spelling.toList := by
    have hbytes : 0x2F ∉ Text.utf8 (escape name.toList) := fun hmem =>
      slash_not_mem_escape _ ((Text.byte_mem_utf8_iff (by decide)).1 hmem)
    exact fun hmem => h.slash_not_mem hbytes ((Text.byte_mem_utf8_iff (by decide)).2 hmem)
  rw [componentName, lastSegment_append start hslash, h.percentDecode_eq, Text.decodeLossy_utf8,
    String.toList_ofList, unescape_escape, String.ofList_toList]

/-- A name that looks like escapes itself. -/
theorem componentName_of_spells_escapes :
    Spells (Text.utf8 (escape "~1/%é".toList)) (Text.utf8 "~01~1%25%c3%A9".toList) ∧
    componentName ("#/components/schemas" ++ "/" ++ "~01~1%25%c3%A9") = "~1/%é" := by
  have hname : Text.utf8 (escape "~1/%é".toList) =
      [0x7E, 0x30, 0x31, 0x7E, 0x31, 0x25, 0xC3, 0xA9] := by decide +kernel
  have hspelling : Text.utf8 "~01~1%25%c3%A9".toList =
      [0x7E, 0x30, 0x31, 0x7E, 0x31, 0x25, 0x32, 0x35, 0x25, 0x63, 0x33, 0x25, 0x41, 0x39] := by
    decide +kernel
  have hspells : Spells (Text.utf8 (escape "~1/%é".toList))
      (Text.utf8 "~01~1%25%c3%A9".toList) := by
    rw [hname, hspelling]
    refine .plain (by decide) <| .plain (by decide) <| .plain (by decide) <| .plain (by decide) <|
      .plain (by decide) <| .coded ?_ ?_ <| .coded ?_ ?_ <| .coded ?_ ?_ .nil
    all_goals decide
  exact ⟨hspells, componentName_of_spells "~1/%é" "#/components/schemas" _ hspells⟩

end TypedClient.Pointer

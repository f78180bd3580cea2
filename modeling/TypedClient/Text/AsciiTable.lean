import TypedClient.Text.Ascii

/-! A transliteration by table, for letters and signs that are common in the names of schemas and
paths. What the table does not list is left out. -/

namespace TypedClient.Text

/-- What a code point is written as; every entry is ASCII. -/
def asciiTable : List (Nat × String) :=
  [(0x0085, ""), (0x00A0, " "), (0x00B2, "2"), (0x00BD, "1/2"), (0x00C0, "A"), (0x00C4, "A"),
   (0x00C6, "Ae"), (0x00C9, "E"), (0x00CE, "I"), (0x00D3, "O"), (0x00D6, "O"), (0x00D7, "*"),
   (0x00DC, "U"), (0x00DF, "ss"), (0x00E0, "a"), (0x00E8, "e"), (0x00E9, "e"), (0x00EE, "i"),
   (0x00EF, "i"), (0x00F1, "n"), (0x00F6, "o"), (0x00F8, "o"), (0x00FA, "u"), (0x00FC, "u"),
   (0x00FE, "th"), (0x0130, "I"), (0x0131, "i"), (0x0141, "L"), (0x0153, "oe"), (0x0179, "Z"),
   (0x0301, ""), (0x0395, "E"), (0x03AC, "a"), (0x03B1, "a"), (0x03B4, "d"), (0x03BB, "l"),
   (0x041C, "M"), (0x0430, "a"), (0x0432, "v"), (0x0435, "e"), (0x0438, "i"), (0x043A, "k"),
   (0x043C, "m"), (0x043E, "o"), (0x0440, "r"), (0x0441, "s"), (0x044F, "ya"), (0x2003, " "),
   (0x200B, ""), (0x2014, "-"), (0x201C, "\""), (0x201D, "\""), (0x2026, "..."), (0x2028, " "),
   (0x20AC, "EUR"), (0x2116, "No"), (0x3000, " "), (0x4E2D, "Zhong"), (0x4EAC, "Jing"),
   (0x5024, "Zhi"), (0x524D, "Qian"), (0x5317, "Bei"), (0x540D, "Ming"), (0x578B, "Xing"),
   (0x65E5, "Ri"), (0x672C, "Ben"), (0x6771, "Dong"), (0x8A9E, "Yu"), (0xFB01, "fi"),
   (0xFEFF, ""), (0xFF41, "a"), (0xFF45, "e"), (0xFF47, "g"), (0xFF48, "h"), (0xFF54, "t"),
   (0x1F600, ":grinning:"), (0x1F601, ":grin:"), (0x1F602, ":joy:")]

/-- A character in ASCII letters. -/
def asciiOf (c : Char) : List Char :=
  if c.toNat < 128 then [c]
  else match asciiTable.lookup c.toNat with
    | some s => s.toList
    | none => []

instance : Transliteration := ⟨asciiOf⟩

instance : LawfulTransliteration := ⟨fun _ h => if_pos h⟩

end TypedClient.Text

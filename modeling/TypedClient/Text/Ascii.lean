import TypedClient.Text.Basic

/-! Transliteration to ASCII. A character is written by the letters that sound or look like it;
which letters those are is not decided here. -/

namespace TypedClient.Text

/-- A way to write characters in ASCII letters. -/
class Transliteration where
  letters : Char → List Char

/-- A transliteration that leaves ASCII as it is. -/
class LawfulTransliteration [Transliteration] : Prop where
  letters_of_ascii : ∀ c : Char, c.toNat < 128 → Transliteration.letters c = [c]

variable [Transliteration]

def toAscii (cs : List Char) : List Char := cs.flatMap Transliteration.letters

/-- ASCII text is its own transliteration. -/
theorem toAscii_of_ascii [LawfulTransliteration] {cs : List Char} (h : ∀ c ∈ cs, c.toNat < 128) :
    toAscii cs = cs := by
  induction cs with
  | nil => rfl
  | cons c cs ih =>
    have hc : Transliteration.letters c = [c] :=
      LawfulTransliteration.letters_of_ascii c (h c List.mem_cons_self)
    have ht : toAscii cs = cs := ih fun d hd => h d (List.mem_cons_of_mem c hd)
    rw [toAscii, List.flatMap_cons, hc, ← toAscii, ht]
    rfl

end TypedClient.Text

import TypedClient.Text.CharacterTables

/-! How many columns of a terminal a text takes. A character takes two by itself if it is written
wide in East Asian text, none if it is a mark on another character or invisible, and else one,
controls included. Most characters take what they take by themselves; some are drawn as one with
what follows them, so a text is looked at from its end, with what stands to the right in mind. -/

namespace TypedClient.Text

/-! ### Single characters -/

/-- The code points that programs leave out when they cannot show them, with the property
Default_Ignorable_Code_Point. -/
def ignorableRanges : Ranges :=
  [(0xAD, 0xAD), (0x34F, 0x34F), (0x61C, 0x61C), (0x115F, 0x1160), (0x17B4, 0x17B5),
    (0x180B, 0x180F), (0x200B, 0x200F), (0x202A, 0x202E), (0x2060, 0x206F), (0x3164, 0x3164),
    (0xFE00, 0xFE0F), (0xFEFF, 0xFEFF), (0xFFA0, 0xFFA0), (0xFFF0, 0xFFF8), (0x1BCA0, 0x1BCA3),
    (0x1D173, 0x1D17A), (0xE0000, 0xE0FFF)]

/-- What else is drawn within a neighbour: signs that span or precede a letter, and the vowels and
final consonants of Hangul syllables. -/
def attachedRanges : Ranges :=
  [(0x605, 0x605), (0x70F, 0x70F), (0x890, 0x891), (0x8E2, 0x8E2), (0xD4E, 0xD4E), (0x1161, 0x11FF),
    (0xA8FA, 0xA8FA), (0xD7B0, 0xD7C6), (0xD7CB, 0xD7FB), (0x111C2, 0x111C3), (0x113D1, 0x113D1),
    (0x1193F, 0x1193F), (0x11941, 0x11941), (0x11A84, 0x11A89), (0x11D46, 0x11D46),
    (0x11F02, 0x11F02)]

/-- The code points with the East Asian width Wide or Fullwidth. -/
def wideRanges : Ranges :=
  [(0x1100, 0x115F), (0x231A, 0x231B), (0x2329, 0x232A), (0x23E9, 0x23EC), (0x23F0, 0x23F0),
    (0x23F3, 0x23F3), (0x25FD, 0x25FE), (0x2614, 0x2615), (0x2630, 0x2637), (0x2648, 0x2653),
    (0x267F, 0x267F), (0x268A, 0x268F), (0x2693, 0x2693), (0x26A1, 0x26A1), (0x26AA, 0x26AB),
    (0x26BD, 0x26BE), (0x26C4, 0x26C5), (0x26CE, 0x26CE), (0x26D4, 0x26D4), (0x26EA, 0x26EA),
    (0x26F2, 0x26F3), (0x26F5, 0x26F5), (0x26FA, 0x26FA), (0x26FD, 0x26FD), (0x2705, 0x2705),
    (0x270A, 0x270B), (0x2728, 0x2728), (0x274C, 0x274C), (0x274E, 0x274E), (0x2753, 0x2755),
    (0x2757, 0x2757), (0x2795, 0x2797), (0x27B0, 0x27B0), (0x27BF, 0x27BF), (0x2B1B, 0x2B1C),
    (0x2B50, 0x2B50), (0x2B55, 0x2B55), (0x2E80, 0x2E99), (0x2E9B, 0x2EF3), (0x2F00, 0x2FD5),
    (0x2FF0, 0x303E), (0x3041, 0x3096), (0x3099, 0x30FF), (0x3105, 0x312F), (0x3131, 0x318E),
    (0x3190, 0x31E5), (0x31EF, 0x321E), (0x3220, 0x3247), (0x3250, 0xA48C), (0xA490, 0xA4C6),
    (0xA960, 0xA97C), (0xAC00, 0xD7A3), (0xF900, 0xFAFF), (0xFE10, 0xFE19), (0xFE30, 0xFE52),
    (0xFE54, 0xFE66), (0xFE68, 0xFE6B), (0xFF01, 0xFF60), (0xFFE0, 0xFFE6), (0x16FE0, 0x16FE4),
    (0x16FF0, 0x16FF6), (0x17000, 0x18CD5), (0x18CFF, 0x18D1E), (0x18D80, 0x18DF2),
    (0x1AFF0, 0x1AFF3), (0x1AFF5, 0x1AFFB), (0x1AFFD, 0x1AFFE), (0x1B000, 0x1B122),
    (0x1B132, 0x1B132), (0x1B150, 0x1B152), (0x1B155, 0x1B155), (0x1B164, 0x1B167),
    (0x1B170, 0x1B2FB), (0x1D300, 0x1D356), (0x1D360, 0x1D376), (0x1F004, 0x1F004),
    (0x1F0CF, 0x1F0CF), (0x1F18E, 0x1F18E), (0x1F191, 0x1F19A), (0x1F200, 0x1F202),
    (0x1F210, 0x1F23B), (0x1F240, 0x1F248), (0x1F250, 0x1F251), (0x1F260, 0x1F265),
    (0x1F300, 0x1F320), (0x1F32D, 0x1F335), (0x1F337, 0x1F37C), (0x1F37E, 0x1F393),
    (0x1F3A0, 0x1F3CA), (0x1F3CF, 0x1F3D3), (0x1F3E0, 0x1F3F0), (0x1F3F4, 0x1F3F4),
    (0x1F3F8, 0x1F43E), (0x1F440, 0x1F440), (0x1F442, 0x1F4FC), (0x1F4FF, 0x1F53D),
    (0x1F54B, 0x1F54E), (0x1F550, 0x1F567), (0x1F57A, 0x1F57A), (0x1F595, 0x1F596),
    (0x1F5A4, 0x1F5A4), (0x1F5FB, 0x1F64F), (0x1F680, 0x1F6C5), (0x1F6CC, 0x1F6CC),
    (0x1F6D0, 0x1F6D2), (0x1F6D5, 0x1F6D8), (0x1F6DC, 0x1F6DF), (0x1F6EB, 0x1F6EC),
    (0x1F6F4, 0x1F6FC), (0x1F7E0, 0x1F7EB), (0x1F7F0, 0x1F7F0), (0x1F90C, 0x1F93A),
    (0x1F93C, 0x1F945), (0x1F947, 0x1F9FF), (0x1FA70, 0x1FA7C), (0x1FA80, 0x1FA8A),
    (0x1FA8E, 0x1FAC6), (0x1FAC8, 0x1FAC8), (0x1FACD, 0x1FADC), (0x1FADF, 0x1FAEA),
    (0x1FAEF, 0x1FAF8), (0x20000, 0x2FFFD), (0x30000, 0x3FFFD)]

/-- Columns that no property tells: an initial of Hangul that fills its place, two Khmer signs that
are written as several, the joiner of Tifinagh, which shows where it joins nothing, and the narrow
sound marks of Katakana, which stand beside their letters. -/
def ownColumns? (c : Char) : Option Nat :=
  match c.toNat with
  | 0x115F => some 2
  | 0x17A4 => some 2
  | 0x17D8 => some 3
  | 0x2D7F | 0xFF9E | 0xFF9F => some 1
  | _ => none

def isZeroWidth (c : Char) : Bool :=
  isGraphemeExtend c || ignorableRanges.has c || attachedRanges.has c

/-- The columns that a character takes by itself. -/
def columnsOf (c : Char) : Nat :=
  (ownColumns? c).getD (if isZeroWidth c then 0 else if wideRanges.has c then 2 else 1)

/-! ### What follows -/

/-- Letters that are drawn as one with letters before them. -/
inductive Tail where
  /-- A Hebrew lamed. -/
  | lamed
  /-- A Buginese ya. -/
  | ya
  /-- A Buginese ya with a vowel sign joined to it. -/
  | vowelYa
  /-- A Tifinagh consonant. -/
  | tifinagh
  /-- A Tifinagh consonant after the sign that joins it. -/
  | joinedTifinagh
  /-- A Lisu tone that is second in a pair. -/
  | tone
  /-- An Old Turkic i. -/
  | orkhonI
  /-- A Khmer consonant with a form below the line. -/
  | subscript
  deriving DecidableEq, Repr

/-- What stands to the right of a place, as far as columns depend on it. -/
inductive Follower where
  | plain
  | lineFeed
  | skinTone
  /-- A picture. -/
  | picture
  /-- One letter of a flag. -/
  | flagLetter
  /-- Several letters of flags. -/
  | flagLetters
  /-- A joiner and a picture. -/
  | joinedPicture
  /-- The mark of a keycap, a joiner and a picture. -/
  | joinedKeycap
  /-- One letter of a flag, a joiner and a picture. -/
  | joinedFlagLetter
  /-- Whole flags, a joiner and a picture. -/
  | joinedFlags
  /-- A letter and whole flags, a joiner and a picture. -/
  | joinedFlagsLetter
  /-- The name of a region, of so many invisible letters or digits, a joiner and a picture. -/
  | region (letters digits : Nat)
  /-- An Arabic alef. -/
  | alef
  /-- A Kirat Rai vowel sign e. -/
  | kiratE
  /-- A Kirat Rai vowel sign ai. -/
  | kiratAi
  /-- A letter that may be drawn as one with what is before it, and whether a joiner asks for it. -/
  | tail (letter : Tail) (joined : Bool)
  deriving DecidableEq, Repr

/-- What stands to the right, and whether a selector in front of it asks for a picture or for
text. -/
structure Ahead where
  follower : Follower := .plain
  asPicture : Bool := false
  asText : Bool := false
  deriving DecidableEq, Repr

/-- Whether what follows can still be drawn as one with what stands before a selector. -/
def Follower.outlastsSelector : Follower → Bool
  | .alef | .tail _ _ => true
  | _ => false

def Follower.isJoinedPicture (f : Follower) : Bool := f == .joinedPicture || f == .joinedKeycap

/-- Puts a selector of the picture in front. -/
def Ahead.selectPicture (a : Ahead) : Ahead :=
  if a.follower.outlastsSelector || a.follower.isJoinedPicture then { a with asPicture := true }
  else { asPicture := true }

/-- Puts a selector of the text form in front. -/
def Ahead.selectText (a : Ahead) : Ahead :=
  if a.follower.outlastsSelector then { a with asText := true } else { asText := true }

/-- Forgets a selector of the picture, which has selected nothing. -/
def Ahead.dropPicture (a : Ahead) : Ahead :=
  if !a.asPicture then a
  else if a.follower.outlastsSelector then { a with asPicture := false }
  else {}

/-! ### Letters that meet -/

def isArabicAlef (n : Nat) : Bool :=
  n == 0x622 || n == 0x623 || n == 0x625 || n == 0x627 || (0x671 ≤ n && n ≤ 0x673) || n == 0x675 ||
    n == 0x773 || n == 0x774 || (0x870 ≤ n && n ≤ 0x882)

def isArabicLam (n : Nat) : Bool :=
  n == 0x644 || (0x6B5 ≤ n && n ≤ 0x6B8) || n == 0x76A || n == 0x8A6 || n == 0x8C7

/-- The characters without a column over which Arabic letters do not reach each other. -/
def barrierRanges : Ranges :=
  [(0x605, 0x605), (0x890, 0x891), (0x8E2, 0x8E2), (0x9BE, 0x9BE), (0x9D7, 0x9D7), (0xB3E, 0xB3E),
    (0xB57, 0xB57), (0xBBE, 0xBBE), (0xBD7, 0xBD7), (0xCC0, 0xCC0), (0xCC2, 0xCC2), (0xCC7, 0xCC8),
    (0xCCA, 0xCCB), (0xCD5, 0xCD6), (0xD3E, 0xD3E), (0xD4E, 0xD4E), (0xD57, 0xD57), (0xDCF, 0xDCF),
    (0xDDF, 0xDDF), (0x1160, 0x11FF), (0x1715, 0x1715), (0x1734, 0x1734), (0x180E, 0x180E),
    (0x1B35, 0x1B35), (0x1B3B, 0x1B3B), (0x1B3D, 0x1B3D), (0x1B43, 0x1B44), (0x1BAA, 0x1BAA),
    (0x1BF2, 0x1BF3), (0x200C, 0x200D), (0x2065, 0x2069), (0x302E, 0x302F), (0x3164, 0x3164),
    (0xA8FA, 0xA8FA), (0xA953, 0xA953), (0xA9C0, 0xA9C0), (0xD7B0, 0xD7C6), (0xD7CB, 0xD7FB),
    (0xFFA0, 0xFFA0), (0xFFF0, 0xFFF8), (0x111C0, 0x111C0), (0x111C2, 0x111C3), (0x11235, 0x11235),
    (0x1133E, 0x1133E), (0x1134D, 0x1134D), (0x11357, 0x11357), (0x113B8, 0x113B8),
    (0x113C2, 0x113C2), (0x113C5, 0x113C5), (0x113C7, 0x113C9), (0x113CF, 0x113CF),
    (0x113D1, 0x113D1), (0x114B0, 0x114B0), (0x114BD, 0x114BD), (0x115AF, 0x115AF),
    (0x116B6, 0x116B6), (0x11930, 0x11930), (0x1193D, 0x1193D), (0x1193F, 0x1193F),
    (0x11941, 0x11941), (0x11A84, 0x11A89), (0x11D46, 0x11D46), (0x11F02, 0x11F02),
    (0x11F41, 0x11F41), (0x16FF0, 0x16FF1), (0x1D165, 0x1D166), (0x1D16D, 0x1D172),
    (0xE0000, 0xE0000), (0xE0002, 0xE001F), (0xE0080, 0xE00FF), (0xE01F0, 0xE0FFF)]

/-- Whether Arabic letters reach each other over a character. -/
def isArabicTransparent (c : Char) : Bool := columnsOf c == 0 && !barrierRanges.has c

/-- Whether a character is a mark that is left out when it cannot be shown; it parts no letters. -/
def isIgnorableMark (n : Nat) : Bool :=
  n == 0x34F || n == 0x17B4 || n == 0x17B5 || (0x180B ≤ n && n ≤ 0x180D) || n == 0x180F ||
    (0xFE00 ≤ n && n ≤ 0xFE0F) || (0xE0100 ≤ n && n ≤ 0xE01EF)

def isTifinaghConsonant (n : Nat) : Bool := (0x2D31 ≤ n && n ≤ 0x2D65) || n == 0x2D6F

/-- The Khmer letters with a form below the line. -/
def isKhmerSubscript (n : Nat) : Bool :=
  (0x1780 ≤ n && n ≤ 0x1782) || (0x1784 ≤ n && n ≤ 0x1787) || (0x1789 ≤ n && n ≤ 0x178C) ||
    (0x178E ≤ n && n ≤ 0x1793) || (0x1795 ≤ n && n ≤ 0x1798) || (0x179B ≤ n && n ≤ 0x179D) ||
    n == 0x17A0 || n == 0x17A2 || n == 0x17A7 || n == 0x17AB || n == 0x17AC || n == 0x17AF

/-- What a character is to the one before it. -/
def Follower.of (c : Char) : Follower :=
  let n := c.toNat
  if n == 0x0A then .lineFeed
  else if isSkinTone c then .skinTone
  else if isFlagLetter c then .flagLetter
  else if isPicture c then .picture
  else if isArabicAlef n then .alef
  else if n == 0x5DC then .tail .lamed false
  else if n == 0x1A10 then .tail .ya false
  else if isTifinaghConsonant n then .tail .tifinagh false
  else if n == 0xA4FC || n == 0xA4FD then .tail .tone true
  else if n == 0x10C03 then .tail .orkhonI false
  else if isKhmerSubscript n then .tail .subscript true
  else if n == 0x16D67 then .kiratE
  else if n == 0x16D68 then .kiratAi
  else .plain

/-! ### Meeting what follows

Each of these gives the columns that a character adds where it is drawn as one with what follows
it, and what both are to the character before them; nothing if it stands by itself. -/

def Tail.meet (n : Nat) : Tail → Bool → Option (Int × Follower)
  | .lamed, true => if n == 0x5D0 then some (0, .plain) else none
  | .ya, true => if n == 0x1A17 then some (0, .tail .vowelYa true) else none
  | .vowelYa, _ => if n == 0x1A15 then some (0, .plain) else none
  | .tifinagh, joined =>
    if n == 0x2D7F then some (1, .tail .joinedTifinagh true)
    else if joined && isTifinaghConsonant n then some (0, .plain)
    else none
  | .joinedTifinagh, _ => if isTifinaghConsonant n then some (-1, .plain) else none
  | .tone, _ => if 0xA4F8 ≤ n && n ≤ 0xA4FB then some (0, .plain) else none
  | .orkhonI, true => if n == 0x10C32 then some (0, .plain) else none
  | .subscript, _ => if n == 0x17D2 then some (-1, .plain) else none
  | _, _ => none

def joiner : Nat := 0x200D

/-- In front of the name of a region: another letter, another digit, or the flag. A name has three
to six letters, or three digits with at most four letters after them. -/
def meetRegion (c : Char) (letters digits : Nat) : Option (Int × Follower) :=
  if isTagLetter c && digits == 0 && letters < 6 then some (0, .region (letters + 1) 0)
  else if isTagDigit c && digits < 3 && letters ≤ 4 then some (0, .region letters (digits + 1))
  else if c.toNat == 0x1F3F4 && (digits == 3 || digits == 0 && 3 ≤ letters) then
    some (0, .picture)
  else none

def Follower.meet (c : Char) : Follower → Option (Int × Follower)
  | .plain | .lineFeed | .joinedKeycap => none
  | .skinTone =>
    if takesSkinTone c then some (0, .picture)
    else if c.toNat == joiner then some (0, .joinedPicture)
    else none
  | .picture => if c.toNat == joiner then some (0, .joinedPicture) else none
  | .flagLetter => if isFlagLetter c then some (1, .flagLetters) else none
  | .flagLetters =>
    if isFlagLetter c then some (1, .flagLetters)
    else if c.toNat == joiner then some (0, .joinedPicture)
    else none
  | .joinedPicture =>
    if c.toNat == 0x20E3 then some (0, .joinedKeycap)
    else if isFlagLetter c then some (1, .joinedFlagLetter)
    else if isSkinTone c then some (0, .skinTone)
    else if c.toNat == 0xE007F then some (0, .region 0 0)
    else if isPicture c then some (0, .picture)
    else none
  | .joinedFlagLetter | .joinedFlagsLetter =>
    if isFlagLetter c then some (-1, .joinedFlags) else none
  | .joinedFlags =>
    if isFlagLetter c then some (3, .joinedFlagsLetter)
    else if c.toNat == joiner then some (0, .joinedPicture)
    else none
  | .region letters digits => meetRegion c letters digits
  | .alef =>
    if isArabicLam c.toNat then some (0, .plain)
    else if isArabicTransparent c then some (0, .alef)
    else none
  | .kiratE =>
    match c.toNat with
    | 0x16D63 | 0x16D69 => some (0, .plain)
    | 0x16D67 => some (0, .kiratAi)
    | 0x16D68 => some (1, .kiratE)
    | _ => none
  | .kiratAi => if c.toNat == 0x16D63 then some (0, .plain) else none
  | .tail letter joined =>
    if c.toNat == joiner then some (0, .tail letter true)
    else if isIgnorableMark c.toNat then some (0, .tail letter joined)
    else letter.meet c.toNat joined

/-! ### Texts -/

/-- The columns of a character in front of what follows it, and what is ahead of the one before.
A carriage return and a line feed are one; a selector acts on the character before it. -/
def columnsBefore (c : Char) (a : Ahead) : Int × Ahead :=
  if a.asPicture && hasTwoForms c then
    (if a.follower.isJoinedPicture then 0 else 2, { follower := .picture })
  else
    let a := a.dropPicture
    if c.toNat ≤ 0xA0 then
      (if c == '\r' && a == { follower := .lineFeed } then 0 else 1, { follower := .of c })
    else if c.toNat == 0xFE0F then (0, a.selectPicture)
    else if c.toNat == 0xFE0E then (0, a.selectText)
    else if a.asText && hasNarrowForm c then (1, {})
    else match a.follower.meet c with
      | some (n, f) => (n, { follower := f })
      | none => (columnsOf c, { follower := .of c })

/-- The columns that a text takes. -/
def columns (s : String) : Nat :=
  (s.toList.foldr (fun c (n, a) => let (m, b) := columnsBefore c a; (n + m, b)) (0, {})).1.toNat

end TypedClient.Text

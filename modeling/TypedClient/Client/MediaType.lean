import TypedClient.Text.Basic

/-! Media types, `type/subtype+suffix`, and the kinds of content that they tell apart. Names are
compared as they are written. How the text of a media type is read is not decided here. -/

namespace TypedClient

structure MediaType where
  type : List Char
  subtype : List Char
  suffix : Option (List Char) := none
  deriving DecidableEq, Repr

namespace MediaType

/-- A way to read media types. -/
class Reading where
  parse? : String → Option MediaType

/-- A media type in small letters. -/
def lower (m : MediaType) : MediaType :=
  ⟨m.type.map Char.toLower, m.subtype.map Char.toLower, m.suffix.map (List.map Char.toLower)⟩

/-- A way to read media types that keeps letters as they are written and takes a text where it takes
the text in small letters: as the same media type in small letters. -/
class LawfulReading [Reading] : Prop where
  parse?_lower : ∀ s, Reading.parse? (Text.lower s) = (Reading.parse? s).map lower

end MediaType

/-- The kinds of content that a client treats in different ways. -/
inductive ContentKind where
  | json | binary | form | anything | other
  deriving DecidableEq, Repr

/-- The kind of content of a media type as it is written. -/
def ContentKind.of [MediaType.Reading] (mediaType : String) : ContentKind :=
  if Text.trim mediaType = "*/*" then .anything
  else match MediaType.Reading.parse? mediaType with
    | none => .other
    | some m =>
      if m.subtype = "json".toList || m.suffix = some "json".toList then .json
      else if m.subtype = "octet-stream".toList then .binary
      else if m.type = "multipart".toList && m.subtype = "form-data".toList then .form
      else .other

end TypedClient

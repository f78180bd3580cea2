import TypedClient.Document.Reader
import TypedClient.Proofs.Path.Place
import TypedClient.Proofs.Text.Decoding

/-! A reference to a named schema is read in two ways: as the name of the schema, and as a way
through the document. The name is cut out at the last slash and then decoded, and bytes that are
not UTF-8 are replaced; the way is decoded first, as UTF-8 only, and then cut at its slashes. Main
statement: both lead to the same schema in every document exactly if the segment stands for UTF-8
without a slash. -/

namespace TypedClient.Pointer

/-! ### Escapes -/

theorem percentDecode_cons {b : UInt8} (hb : b ≠ 0x25) (bytes : List UInt8) :
    percentDecode (b :: bytes) = b :: percentDecode bytes := by
  match bytes with
  | [] | [_] => rfl
  | _ :: _ :: _ => rw [percentDecode, if_neg hb]

/-- Bytes other than the percent sign stand for themselves. -/
theorem percentDecode_append {first : List UInt8} (h : ∀ b ∈ first, b ≠ 0x25)
    (bytes : List UInt8) : percentDecode (first ++ bytes) = first ++ percentDecode bytes := by
  induction first with
  | nil => rfl
  | cons b first ih =>
    rw [List.forall_mem_cons] at h
    rw [List.cons_append, percentDecode_cons h.1, ih h.2, List.cons_append]

/-- The segment stands for UTF-8 without a slash. -/
def IsPlain (segment : List Char) : Prop :=
  ∃ name, Text.utf8 name = percentDecode (Text.utf8 segment) ∧ '/' ∉ name

theorem isPlain_iff_decode {segment : List Char} :
    IsPlain segment ↔ (Text.decode? (percentDecode (Text.utf8 segment))).toOption.any
      (fun name => '/' ∉ name.toList) := by
  constructor
  · rintro ⟨name, hname, hslash⟩
    have hread : Text.decode? (percentDecode (Text.utf8 segment)) = .ok (String.ofList name) := by
      rw [Text.decode?_eq_ok_iff, String.toList_ofList, hname]
    simpa [hread, Except.toOption] using hslash
  · intro h
    cases hread : Text.decode? (percentDecode (Text.utf8 segment)) with
    | error fault => simp [hread, Except.toOption] at h
    | ok name =>
      exact ⟨name.toList, Text.decode?_eq_ok_iff.1 hread,
        by simpa [hread, Except.toOption] using h⟩

instance (segment : List Char) : Decidable (IsPlain segment) :=
  decidable_of_iff _ isPlain_iff_decode.symm

/-! ### The way through the document -/

theorem lookup_eq_walk {reference : String} {pointer decoded : List Char}
    (hreference : reference.toList = '#' :: pointer)
    (hdecoded : Text.utf8 decoded = percentDecode (Text.utf8 pointer)) (root : Json) :
    lookup root reference = walk root decoded := by
  have hread : Text.decode? (percentDecode (Text.utf8 pointer)) = .ok (String.ofList decoded) := by
    rw [Text.decode?_eq_ok_iff, String.toList_ofList, hdecoded]
  rw [lookup, hreference]
  simp only [hread, String.toList_ofList]

theorem lookup_eq_none {reference : String} {pointer : List Char}
    (hreference : reference.toList = '#' :: pointer)
    (hdecoded : ∀ decoded, Text.utf8 decoded ≠ percentDecode (Text.utf8 pointer)) (root : Json) :
    lookup root reference = none := by
  rw [lookup, hreference]
  cases hread : Text.decode? (percentDecode (Text.utf8 pointer)) with
  | ok decoded => exact absurd (Text.decode?_eq_ok_iff.1 hread) (hdecoded _)
  | error fault => simp only [hread]

/-- A segment that is no number names members of objects only. -/
theorem step_eq_get? {segment : List Char} (h : position? segment = none) (v : Json) :
    step v segment = v.get? (String.ofList segment) := by
  cases v with
  | arr items => simp only [step, h]; rfl
  | _ => rfl

/-- What follows a slash is the last segment, if it has no slash itself. -/
theorem lastSegment_append (start : String) {segment : String} (h : '/' ∉ segment.toList) :
    lastSegment (start ++ "/" ++ segment) = segment.toList := by
  have hcut : (start ++ "/" ++ segment).toList = start.toList ++ '/' :: segment.toList := by
    simp
  rw [lastSegment, hcut, Text.pieces_append_cut (by rfl), Text.pieces_of_not_mem h,
    List.getLast?_append]
  rfl

/-! ### References to named schemas -/

/-- The reference to a named schema. -/
def schemaReference (segment : String) : String := "#/components/schemas/" ++ segment

theorem toList_schemaReference (segment : String) :
    (schemaReference segment).toList =
      '#' :: ("/components/schemas/".toList ++ segment.toList) := by
  have hstart : "#/components/schemas/".toList = '#' :: "/components/schemas/".toList := by simp
  unfold schemaReference
  rw [String.toList_append, hstart, List.cons_append]

theorem lastSegment_schemaReference {segment : String} (h : '/' ∉ segment.toList) :
    lastSegment (schemaReference segment) = segment.toList :=
  lastSegment_append "#/components/schemas" h

/-- The start of the reference stands for itself. -/
theorem percentDecode_schemas (segment : List Char) :
    percentDecode (Text.utf8 ("/components/schemas/".toList ++ segment)) =
      Text.utf8 "/components/schemas/".toList ++ percentDecode (Text.utf8 segment) := by
  rw [Text.utf8_append, percentDecode_append (by decide +kernel)]

/-- A name read from a segment that stands for UTF-8 is what it stands for, unescaped. -/
theorem componentName_schemaReference {segment : String} {name : List Char}
    (h : '/' ∉ segment.toList)
    (hname : Text.utf8 name = percentDecode (Text.utf8 segment.toList)) :
    componentName (schemaReference segment) = String.ofList (unescape name) := by
  rw [componentName, lastSegment_schemaReference h, ← hname, Text.decodeLossy_utf8,
    String.toList_ofList]

/-! ### Documents in the newer layout -/

/-- A document in the newer layout whose schemas, where it has any, stand under their names. -/
def isNewerLayout (root : Json) : Bool :=
  (root.get? "swagger").isNone && (root.get? "openapi").isSome &&
    match (root.get? "components").bind (·.get? "schemas") with
    | none | some (.obj _) => true
    | some _ => false

/-- The way of a reference goes on from the schemas, piece by piece of what its segment stands
for. -/
theorem walk_schemas (root : Json) (name : List Char) :
    walk root ("/components/schemas/".toList ++ name) =
      ((root.get? "components").bind (·.get? "schemas")).bind fun schemas =>
        ((Text.pieces (· == '/') name).map unescape).foldlM step schemas := by
  have hstart : "/components/schemas/".toList =
      '/' :: ("components".toList ++ '/' :: ("schemas".toList ++ ['/'])) := by simp
  have hpieces : Text.pieces (· == '/') ("components".toList ++ '/' :: ("schemas".toList ++
      '/' :: name)) = "components".toList :: "schemas".toList :: Text.pieces (· == '/') name := by
    rw [Text.pieces_append_cut (by rfl), Text.pieces_append_cut (by rfl),
      Text.pieces_of_not_mem (by decide +kernel), Text.pieces_of_not_mem (by decide +kernel),
      List.singleton_append, List.singleton_append]
  have hcomponents (v : Json) : step v (unescape "components".toList) = v.get? "components" :=
    step_eq_get? (by decide +kernel) v
  have hschemas (v : Json) : step v (unescape "schemas".toList) = v.get? "schemas" :=
    step_eq_get? (by decide +kernel) v
  simp only [hstart, List.cons_append, List.append_assoc, List.nil_append]
  rw [walk, hpieces, List.map_cons, List.map_cons, List.foldlM_cons, hcomponents]
  simp only [List.foldlM_cons, hschemas, Option.bind_eq_bind, Option.bind_assoc]

/-- A segment that stands for UTF-8 without a slash leads to the schema of the name it gives. -/
theorem lookup_of_isPlain {root : Json} {segment : String} (hroot : isNewerLayout root)
    (h : '/' ∉ segment.toList) (hplain : IsPlain segment.toList) :
    lookup root (schemaReference segment) =
      Assoc.get? (Document.schemasOf root) (componentName (schemaReference segment)) := by
  obtain ⟨name, hname, hslash⟩ := hplain
  have hway : lookup root (schemaReference segment) =
      walk root ("/components/schemas/".toList ++ name) :=
    lookup_eq_walk (toList_schemaReference segment)
      (by rw [Text.utf8_append, percentDecode_schemas, hname]) root
  rw [hway, walk_schemas, Text.pieces_of_not_mem hslash, componentName_schemaReference h hname,
    Document.schemasOf]
  rw [isNewerLayout, Bool.and_eq_true] at hroot
  have hschemas := hroot.2
  cases hcomponents : root.get? "components" with
  | none => rfl
  | some components =>
    simp only [hcomponents, Option.bind_some, Json.getObject?] at hschemas ⊢
    cases hmembers : components.get? "schemas" with
    | none => rfl
    | some schemas =>
      rw [hmembers] at hschemas
      cases schemas with
      | obj fields => simp [step, Json.asObject?]
      | _ => exact absurd hschemas Bool.false_ne_true

/-- A document with one schema, which is `null`. -/
def withSchema (name : String) : Json :=
  .obj [("openapi", .str "3.0.0"),
    ("components", .obj [("schemas", .obj [(name, .null)])])]

theorem foldlM_step_null {segments : List (List Char)} (h : segments ≠ []) :
    segments.foldlM step .null = none := by
  cases segments with
  | nil => exact absurd rfl h
  | cons segment segments => rfl

/-- No other segment leads anywhere in a document with nothing below its schemas. -/
theorem lookup_withSchema {segment : String} (hplain : ¬ IsPlain segment.toList) (name : String) :
    lookup (withSchema name) (schemaReference segment) = none := by
  by_cases hread : ∃ decoded, Text.utf8 decoded = percentDecode (Text.utf8 segment.toList)
  · obtain ⟨decoded, hdecoded⟩ := hread
    have hslash : '/' ∈ decoded := by
      by_contra hslash
      exact hplain ⟨decoded, hdecoded, hslash⟩
    obtain ⟨first, rest, rfl⟩ := List.append_of_mem hslash
    obtain ⟨p, ps, hfirst⟩ := List.exists_cons_of_ne_nil (Text.pieces_ne_nil (· == '/') first)
    obtain ⟨q, qs, hrest⟩ := List.exists_cons_of_ne_nil (Text.pieces_ne_nil (· == '/') rest)
    have hway : lookup (withSchema name) (schemaReference segment) =
        walk (withSchema name) ("/components/schemas/".toList ++ (first ++ '/' :: rest)) :=
      lookup_eq_walk (toList_schemaReference segment)
        (by rw [Text.utf8_append, percentDecode_schemas, hdecoded]) _
    have hschemas : ((withSchema name).get? "components").bind (·.get? "schemas") =
        some (.obj [(name, .null)]) := by rfl
    rw [hway, walk_schemas, Text.pieces_append_cut (by rfl), hfirst, hrest, hschemas,
      Option.bind_some, List.cons_append, List.map_cons, List.foldlM_cons, step, Assoc.get?]
    split
    · exact foldlM_step_null (by simp)
    · rfl
  · refine lookup_eq_none (toList_schemaReference segment) (fun decoded hdecoded => ?_) _
    rw [percentDecode_schemas] at hdecoded
    obtain ⟨rest, -, hrest⟩ := Text.exists_of_utf8_eq_append hdecoded
    exact hread ⟨rest, hrest⟩

/-- **The two readings of a reference to a named schema agree in every document exactly if its
segment stands for UTF-8 without a slash.** -/
theorem readings_agree_iff {segment : String} (h : '/' ∉ segment.toList) :
    (∀ root, isNewerLayout root → lookup root (schemaReference segment) =
      Assoc.get? (Document.schemasOf root) (componentName (schemaReference segment))) ↔
    IsPlain segment.toList := by
  constructor
  · intro hagree
    by_contra hplain
    have hsome := hagree (withSchema (componentName (schemaReference segment))) (by rfl)
    rw [lookup_withSchema hplain] at hsome
    have hthere : Assoc.get? (Document.schemasOf (withSchema (componentName
        (schemaReference segment)))) (componentName (schemaReference segment)) = some .null :=
      if_pos rfl
    exact absurd (hsome.trans hthere) (by simp)
  · exact fun hplain root hroot => lookup_of_isPlain hroot h hplain

theorem readings_agree_iff_page :
    '/' ∉ "Page%3CPet%3E".toList ∧
    ∀ root, isNewerLayout root → lookup root "#/components/schemas/Page%3CPet%3E" =
      Assoc.get? (Document.schemasOf root) "Page<Pet>" := by
  have hslash : '/' ∉ "Page%3CPet%3E".toList := by decide +kernel
  have hname : componentName (schemaReference "Page%3CPet%3E") = "Page<Pet>" := by decide +kernel
  refine ⟨hslash, fun root hroot => ?_⟩
  have hagree := (readings_agree_iff hslash).2 (by decide +kernel) root hroot
  rwa [hname] at hagree

/-- A document with one schema, whose name has a slash. -/
def slashedName : Json :=
  .obj [("openapi", .str "3.0.0"),
    ("components", .obj [("schemas", .obj [("a/b", .obj [("type", .str "string")])])])]

/-- An encoded slash is part of the name in the one reading and a cut in the other. -/
theorem readings_differ_of_slashedName :
    isNewerLayout slashedName ∧ '/' ∉ "a%2Fb".toList ∧
    componentName (schemaReference "a%2Fb") = "a/b" ∧
    lookup slashedName (schemaReference "a%2Fb") = none ∧
    (Assoc.get? (Document.schemasOf slashedName)
      (componentName (schemaReference "a%2Fb"))).isSome := by
  refine ⟨by decide +kernel, by decide +kernel, by decide +kernel, ?_, by decide +kernel⟩
  exact Option.isNone_iff_eq_none.1 (by decide +kernel)

end TypedClient.Pointer

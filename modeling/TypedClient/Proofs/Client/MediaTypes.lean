import TypedClient.Projection
import TypedClient.Proofs.Client.Prefixed
import TypedClient.Proofs.Naming.Identifiers

/-! Media types in other letters, capital or small. Whether a text is a media type does not depend
on the case of its letters. What kind of content it names does: by the words that it is compared
with, which are compared as they are written. Types, models and client are told by these kinds and
by the schemas, so they are the same under media types of the same kinds. -/

namespace TypedClient

/-! ### Letters, capital or small -/

namespace Text

variable {p : Char → Bool} {cs : List Char}

/-- A property that the case of a letter does not change. -/
def Caseless (p : Char → Bool) : Prop := ∀ c : Char, p c.toLower = p c

/-- Only letters change case, so a property that all letters have is caseless, and one that none
has. -/
theorem caseless_of_letters {b : Bool} (h : ∀ c : Char, c.isAlpha → p c = b) : Caseless p := by
  intro c
  by_cases hc : c.isUpper
  · have hletter : c.isAlpha := by simp [Char.isAlpha, hc]
    rw [h c hletter, h c.toLower (by rwa [Char.isAlpha_toLower_eq_isAlpha])]
  · rw [Char.toLower_eq_of_not_isUpper hc]

theorem ne_of_isAlpha {c d : Char} (hc : c.isAlpha) (hd : d.isAlpha = false) : c ≠ d := by
  rintro rfl
  rw [hd] at hc
  cases hc

theorem caseless_isBlank : Caseless isBlank := by
  refine caseless_of_letters (b := false) fun c hc => ?_
  have hrange : 65 ≤ c.toNat ∧ c.toNat < 123 := by
    simp only [Char.isAlpha, Char.isUpper, Char.isLower] at hc
    grind [UInt32.le_iff_toNat_le, Char.toNat_val]
  simp [isBlank]
  omega

namespace Caseless

variable (h : Caseless p)

include h

theorem takeWhile_low : (low cs).takeWhile p = low (cs.takeWhile p) := by
  rw [low, List.takeWhile_map, show p ∘ Char.toLower = p from funext h, low]

theorem dropWhile_low : (low cs).dropWhile p = low (cs.dropWhile p) := by
  rw [low, List.dropWhile_map, show p ∘ Char.toLower = p from funext h, low]

theorem all_low : (low cs).all p = cs.all p := by
  rw [low, List.all_map, show p ∘ Char.toLower = p from funext h]

end Caseless

theorem toLower_eq_iff {c d : Char} (hd : d.isAlpha = false) : c.toLower = d ↔ c = d := by
  refine decide_eq_decide.1 (caseless_of_letters (p := fun c => decide (c = d)) (b := false) ?_ c)
  exact fun c hc => decide_eq_false (ne_of_isAlpha hc hd)

/-- No other text becomes one without letters. -/
theorem low_eq_iff {ds : List Char} (h : ∀ d ∈ ds, d.isAlpha = false) : low cs = ds ↔ cs = ds := by
  induction ds generalizing cs with
  | nil => exact List.map_eq_nil_iff
  | cons d ds ih =>
    rw [List.forall_mem_cons] at h
    cases cs with
    | nil => exact ⟨nofun, nofun⟩
    | cons c cs =>
      rw [low, List.map_cons, List.cons.injEq, List.cons.injEq, toLower_eq_iff h.1]
      exact and_congr_right' (ih h.2)

theorem low_cons (c : Char) (cs : List Char) : low (c :: cs) = c.toLower :: low cs := rfl

theorem length_low (cs : List Char) : (low cs).length = cs.length := List.length_map _

theorem toList_lower (s : String) : (lower s).toList = low s.toList := String.toList_ofList

theorem sameLetters_iff {s t : String} : sameLetters s t ↔ lower s = lower t := beq_iff_eq

theorem reverse_low (cs : List Char) : (low cs).reverse = low cs.reverse := List.map_reverse.symm

theorem trimChars_low (cs : List Char) : trimChars (low cs) = low (trimChars cs) := by
  rw [trimChars, trimChars, caseless_isBlank.dropWhile_low, reverse_low,
    caseless_isBlank.dropWhile_low, reverse_low]

end Text

namespace MediaType

open Text Reading

/-- The words by which kinds of content are told are written alike in two media types. -/
structure SameWords [Reading] (s t : String) : Prop where
  json : ∀ m ∈ parse? s, ∀ m' ∈ parse? t, m.subtype = "json".toList ↔ m'.subtype = "json".toList
  suffix : ∀ m ∈ parse? s, ∀ m' ∈ parse? t,
    m.suffix = some "json".toList ↔ m'.suffix = some "json".toList
  binary : ∀ m ∈ parse? s, ∀ m' ∈ parse? t,
    m.subtype = "octet-stream".toList ↔ m'.subtype = "octet-stream".toList
  form : ∀ m ∈ parse? s, ∀ m' ∈ parse? t,
    m.type = "multipart".toList ∧ m.subtype = "form-data".toList ↔
      m'.type = "multipart".toList ∧ m'.subtype = "form-data".toList

/-- The second text is the first one in other letters at most, capital or small, and then what is to
be kept is kept. -/
def Recased (kept : String → String → Prop) (s t : String) : Prop :=
  s = t ∨ Text.sameLetters s t ∧ kept s t

theorem Recased.letters {kept : String → String → Prop} {s t : String} (h : Recased kept s t) :
    Text.sameLetters s t := by
  obtain rfl | ⟨hletters, -⟩ := h
  · exact sameLetters_iff.2 rfl
  · exact hletters

end MediaType

theorem Text.trim_eq_iff_of_sameLetters {s t u : String} (h : Text.sameLetters s t)
    (hu : ∀ c ∈ u.toList, c.isAlpha = false) : Text.trim s = u ↔ Text.trim t = u := by
  have hiff : ∀ s : String, Text.trim s = u ↔ Text.trimChars (Text.lower s).toList = u.toList := by
    intro s
    rw [Text.trim, Text.toList_lower, Text.trimChars_low, Text.low_eq_iff hu, ← String.toList_inj,
      String.toList_ofList]
  rw [hiff, hiff, Text.sameLetters_iff.1 h]

/-- A media type names the same kind of content where these words are kept. -/
theorem ContentKind.of_recased [MediaType.Reading] [MediaType.LawfulReading] {s t : String}
    (h : MediaType.Recased MediaType.SameWords s t) : ContentKind.of s = ContentKind.of t := by
  obtain rfl | ⟨hletters, hjson, hsuffix, hbinary, hform⟩ := h
  · rfl
  have hparse : (MediaType.Reading.parse? s).map MediaType.lower =
      (MediaType.Reading.parse? t).map MediaType.lower := by
    rw [← MediaType.LawfulReading.parse?_lower, ← MediaType.LawfulReading.parse?_lower,
      Text.sameLetters_iff.1 hletters]
  have htrim := Text.trim_eq_iff_of_sameLetters hletters (u := "*/*") (by simp)
  unfold ContentKind.of
  simp only [htrim]
  cases hs : MediaType.Reading.parse? s with
  | none =>
    rw [hs, Option.map_none, eq_comm, Option.map_eq_none_iff] at hparse
    rw [hparse]
  | some m =>
    cases ht : MediaType.Reading.parse? t with
    | none => simp [hs, ht] at hparse
    | some m' =>
      simp only [hjson m hs m' ht, hsuffix m hs m' ht, hbinary m hs m' ht, Bool.or_eq_true,
        Bool.and_eq_true, decide_eq_true_eq, hform m hs m' ht]

/-! ### Bodies -/

variable {R : String → String → Prop}

/-- Bodies with the same schemas in the same order, under related media types. -/
def Body.Respelled (R : String → String → Prop) (b b' : Body) : Prop :=
  List.Forall₂ (fun p p' => R p.1 p'.1 ∧ p.2 = p'.2) b.content b'.content

/-- Operations that differ in the media types of their bodies only. -/
structure Operation.Respelled (R : String → String → Prop) (o o' : Operation) : Prop where
  request : Option.Rel (Body.Respelled R) o.request o'.request
  response : Option.Rel (Body.Respelled R) o.response o'.response
  rest : o' = { o with request := o'.request, response := o'.response }

namespace Client

section Respelled

variable [MediaType.Reading] (hR : ∀ s t, R s t → ContentKind.of s = ContentKind.of t) {b b' : Body}
  {o o' : Operation} {d : Document}

include hR

theorem contentOf?_respelled (h : b.Respelled R b') : contentOf? b' = contentOf? b := by
  funext kind
  obtain ⟨description, content⟩ := b
  obtain ⟨description', content'⟩ := b'
  change List.Forall₂ _ content content' at h
  show (content'.find? _).map _ = (content.find? _).map _
  induction h with
  | nil => rfl
  | @cons p p' rest rest' hp _ ih =>
    rw [List.find?_cons, List.find?_cons, hR _ _ hp.1]
    split
    · exact congrArg some hp.2.symm
    · exact ih

theorem hasContent_respelled (h : b.Respelled R b') : hasContent b' = hasContent b := by
  funext kind
  rw [hasContent, hasContent, contentOf?_respelled hR h]

section Bodies

variable {r r' : Option Body} (h : Option.Rel (Body.Respelled R) r r')

include h

theorem requestOf_respelled (d : Document) : requestOf d r' = requestOf d r := by
  cases h with
  | none => rfl
  | some h => rw [requestOf, requestOf, contentOf?_respelled hR h]

theorem responseTypeOf_respelled (fallback : ResponseType) :
    responseTypeOf fallback r' = responseTypeOf fallback r := by
  cases h with
  | none => rfl
  | some h => rw [responseTypeOf, responseTypeOf, hasContent_respelled hR h]

theorem returnTypeOf_respelled (d : Document) : returnTypeOf d r' = returnTypeOf d r := by
  cases h with
  | none => rfl
  | some h =>
    rw [returnTypeOf, returnTypeOf, hasContent_respelled hR h, contentOf?_respelled hR h]

end Bodies

variable (hd : d.Forest) (operations : List Operation) (options : Options)

include hd

theorem actionOf_respelled [Text.Transliteration] (h : o.Respelled R o') :
    actionOf { d with operations } options o' = actionOf d options o := by
  rw [actionOf_withOperations hd, actionOf, actionOf, requestOf_respelled hR h.request,
    returnTypeOf_respelled hR h.response, responseTypeOf_respelled hR h.response, h.rest]
  rfl

theorem placeAll_respelled [Text.Transliteration] {os os' : List Operation}
    (h : List.Forall₂ (Operation.Respelled R) os os') (placed : RouteTree × List Warning) :
    placeAll { d with operations } options os' placed = placeAll d options os placed := by
  induction h generalizing placed with
  | nil => rfl
  | @cons o o' rest rest' ho _ ih =>
    have hroute : routeOf o' = routeOf o := by rw [ho.rest]; rfl
    obtain ⟨tree, warnings⟩ := placed
    simp only [placeAll, actionOf_respelled hR hd operations options ho, hroute, ih]

end Respelled

end Client

/-- Types, models and client are the same where media types are of the same kinds. -/
theorem Projection.build_respelled [MediaType.Reading] [Text.Transliteration] {d : Document}
    (hd : d.Forest) {operations : List Operation}
    (hR : ∀ s t, R s t → ContentKind.of s = ContentKind.of t)
    (h : List.Forall₂ (Operation.Respelled R) d.operations operations) (options : Client.Options) :
    build { d with operations } options = build d options := by
  have hproject : Client.project { d with operations } options = Client.project d options := by
    rw [Client.project, Client.project, Client.placeAll_respelled hR hd operations options h]
    rfl
  rw [build, build, resolve, resolve, Resolver.all_withOperations hd, hproject]

end TypedClient

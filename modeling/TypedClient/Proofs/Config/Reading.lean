import Mathlib.Data.List.Nodup
import Mathlib.Data.Option.Basic
import TypedClient.Config.Reader
import TypedClient.Proofs.Alike
import TypedClient.Proofs.Json.Reading

/-! Reading configurations against their shape, which is told of a JSON value as it is written: a
record is an object, whose members in no field are passed over, or a list of its fields in order. A
text that is read begins with a value of that shape, but what follows the value may be anything. -/

namespace TypedClient.Config

open Json

/-- A string that stands for a text. -/
def IsText : Tree → Prop
  | .string (some _) => True
  | _ => False

def IsFlag : Tree → Prop
  | .bool _ => True
  | _ => False

def IsListOf (P : Tree → Prop) : Tree → Prop
  | .list vs => ∀ v ∈ vs, P v
  | _ => False

/-! ### Records -/

/-- A field of a record: its name, whether it has to be there in an object and in a list, and what
may be written for it. -/
structure FieldShape where
  name : String
  inObject : Bool
  inList : Bool
  holds : Tree → Prop

/-- The members of an object give a field once, or not at all if it need not be there. -/
def FieldShape.Given (f : FieldShape) (ms : List (Option String × Tree)) : Prop :=
  (∃ v, ms.filter (fun m => m.1 = some f.name) = [(some f.name, v)] ∧ f.holds v) ∨
    (∀ m ∈ ms, m.1 ≠ some f.name) ∧ f.inObject = false

/-- Values of fields in order, of which those at the end may be missing that need not be there. -/
inductive InOrder : List FieldShape → List Tree → Prop
  | nil {fields : List FieldShape} (h : ∀ f ∈ fields, f.inList = false) : InOrder fields []
  | cons {f : FieldShape} {fields : List FieldShape} {v : Tree} {vs : List Tree} (hv : f.holds v)
    (rest : InOrder fields vs) : InOrder (f :: fields) (v :: vs)

def IsRecord (fields : List FieldShape) : Tree → Prop
  | .object ms => ∀ f ∈ fields, f.Given ms
  | .list vs => InOrder fields vs
  | _ => False

/-! ### Configurations -/

/-- A field of options, which may be null, and may be missing in an object. -/
def option (name : String) (P : Tree → Prop) : FieldShape :=
  { name, inObject := false, inList := true, holds := fun v => v = .null ∨ P v }

def IsIndexSetting (v : Tree) : Prop := IsFlag v ∨ IsText v

/-- A response type by its name, which may also be the only member of an object, with null. -/
def IsResponseType (v : Tree) : Prop :=
  ∃ r : ResponseType, v = .string (some r.name) ∨ v = .object [(some r.name, .null)]

def modelShape : List FieldShape := [option "output" IsText, option "transform" IsText,
  option "transformFile" IsText, option "dts" IsIndexSetting, option "prettier" IsFlag,
  option "extension" IsText]

def clientShape : List FieldShape := [option "output" IsText, option "transform" IsText,
  option "transformFile" IsText, option "prettier" IsFlag, option "extension" IsText,
  option "defaultResponseType" IsResponseType]

/-- Something that is switched on or off, or on with options. -/
def IsToggle (fields : List FieldShape) (v : Tree) : Prop := IsFlag v ∨ IsRecord fields v

/-- A field that may be missing where it is one of the last ones. -/
def lacking (name : String) (P : Tree → Prop) : FieldShape :=
  { name, inObject := false, inList := false, holds := P }

/-- A field that has to be there. -/
def required (name : String) (P : Tree → Prop) : FieldShape :=
  { name, inObject := true, inList := true, holds := P }

def outputsShape : List FieldShape :=
  [lacking "models" (IsToggle modelShape), lacking "api" (IsToggle clientShape)]

def targetShape : List FieldShape := [required "url" IsText, required "basePath" IsText,
  lacking "clean" IsFlag, lacking "template" (IsRecord outputsShape)]

def configShape : List FieldShape := [required "apiDocs" (IsListOf (IsRecord targetShape))]

/-- A configuration: a list of targets. -/
def IsConfig : Tree → Prop := IsRecord configShape

/-- A text that is one JSON value with the shape of a configuration, but for white space around it. -/
def IsWhole (text : String) : Prop :=
  ∃ a v r, Space text.toList a ∧ Value a v r ∧ Space r [] ∧ IsConfig v

/-! ### Members of objects -/

/-- Members are passed one after another: a field of the record that was not seen before, which is
seen from then on, or something else. -/
inductive Passes (fields : List FieldShape) :
    List String → List (Option String × Tree) → List String → Prop
  | nil {seen : List String} : Passes fields seen [] seen
  | other {seen seen' : List String} {name : Option String} {v : Tree}
    {ms : List (Option String × Tree)} (h : ∀ f ∈ fields, name ≠ some f.name)
    (rest : Passes fields seen ms seen') : Passes fields seen ((name, v) :: ms) seen'
  | field {seen seen' : List String} {f : FieldShape} {v : Tree}
    {ms : List (Option String × Tree)} (hf : f ∈ fields) (hseen : f.name ∉ seen) (hv : f.holds v)
    (rest : Passes fields (f.name :: seen) ms seen') :
    Passes fields seen ((some f.name, v) :: ms) seen'

section Shapes

variable {fields : List FieldShape} {f : FieldShape} {seen seen' : List String}
  {ms : List (Option String × Tree)}

theorem Passes.not_again (h : Passes fields seen ms seen') (hf : f ∈ fields)
    (hseen : f.name ∈ seen) : (∀ m ∈ ms, m.1 ≠ some f.name) ∧ f.name ∈ seen' := by
  induction h with
  | nil => exact ⟨fun _ hm => absurd hm List.not_mem_nil, hseen⟩
  | other hother _ ih => exact ⟨List.forall_mem_cons.2 ⟨hother f hf, (ih hseen).1⟩, (ih hseen).2⟩
  | field _ hnew _ _ ih =>
    obtain ⟨hrest, hseen'⟩ := ih (List.mem_cons_of_mem _ hseen)
    refine ⟨List.forall_mem_cons.2 ⟨fun heq => hnew ?_, hrest⟩, hseen'⟩
    rwa [Option.some.inj heq]

/-- A field is given once, or it has not been seen in the end. -/
theorem Passes.given (hnodup : (fields.map (·.name)).Nodup) (h : Passes fields seen ms seen')
    (hf : f ∈ fields) (hseen : f.name ∉ seen) :
    (∃ v, ms.filter (fun m => m.1 = some f.name) = [(some f.name, v)] ∧ f.holds v) ∨
      (∀ m ∈ ms, m.1 ≠ some f.name) ∧ f.name ∉ seen' := by
  induction h with
  | nil => exact .inr ⟨fun _ hm => absurd hm List.not_mem_nil, hseen⟩
  | other hother _ ih =>
    rw [List.filter_cons_of_neg (by simpa using hother f hf), List.forall_mem_cons]
    exact (ih hseen).imp_right fun h => ⟨⟨hother f hf, h.1⟩, h.2⟩
  | @field seen₀ _ g v ms hg _ hv rest ih =>
    by_cases hname : g.name = f.name
    · obtain rfl := List.inj_on_of_nodup_map hnodup hg hf hname
      have hrest := (rest.not_again hf List.mem_cons_self).1
      refine .inl ⟨v, ?_, hv⟩
      rw [List.filter_cons_of_pos (by simp),
        List.filter_eq_nil_iff.2 fun m hm => by simpa using hrest m hm]
    · have hne : some g.name ≠ some f.name := fun heq => hname (Option.some.inj heq)
      rw [List.filter_cons_of_neg (by simpa using hname), List.forall_mem_cons]
      have hseen : f.name ∉ g.name :: seen₀ := by simp [Ne.symm hname, hseen]
      exact (ih hseen).imp_right fun h => ⟨⟨hne, h.1⟩, h.2⟩

/-- Members that are passed and among which every field is that has to be there. -/
theorem Passes.isRecord (h : Passes fields [] ms seen') (hnodup : (fields.map (·.name)).Nodup)
    (hrequired : ∀ f ∈ fields, f.inObject → f.name ∈ seen') : IsRecord fields (.object ms) := by
  intro f hf
  refine (h.given hnodup hf List.not_mem_nil).imp_right fun ⟨habsent, hseen⟩ => ⟨habsent, ?_⟩
  exact Bool.eq_false_iff.2 fun hin => hseen (hrequired f hf hin)

/-! ### Options -/

section Options

variable {ρ : Type} {set : Setter ρ} {r r' : ρ}

/-- A setter takes what may be written for a field, and nothing else. -/
def Takes (set : Setter ρ) (fields : List FieldShape) : Prop :=
  ∀ f ∈ fields, ∀ v r r', set f.name v r = some r' → f.holds v.tree

theorem passes_of_fromMembers? (hset : Takes set fields) {members : List (String × Json)}
    (h : fromMembers? (fields.map (·.name)) set seen members r = some r') :
    ∃ seen', Passes fields seen (memberTrees members) seen' := by
  induction members generalizing seen r with
  | nil => exact ⟨seen, .nil⟩
  | cons m members ih =>
    obtain ⟨name, v⟩ := m
    unfold fromMembers? at h
    split at h
    · next hname =>
      obtain ⟨f, hf, rfl⟩ := List.mem_map.1 (List.contains_iff_mem.1 hname)
      split at h
      · cases h
      · next hseen =>
        obtain ⟨r₁, hr₁, h⟩ := Option.bind_eq_some_iff.1 h
        obtain ⟨seen', hrest⟩ := ih h
        exact ⟨seen', .field hf (fun hmem => hseen (List.contains_iff_mem.2 hmem))
          (hset f hf v r r₁ hr₁) hrest⟩
    · next hname =>
      obtain ⟨seen', hrest⟩ := ih h
      refine ⟨seen', .other (fun f hf heq => hname ?_) hrest⟩
      rw [Option.some.inj heq, List.contains_iff_mem]
      exact List.mem_map_of_mem hf

theorem inOrder_of_fromItems? (hset : Takes set fields) {items : List Json}
    (h : fromItems? set (fields.map (·.name)) items r = some r') : InOrder fields (trees items) := by
  induction fields generalizing items r with
  | nil =>
    cases items with
    | nil => exact .nil fun _ hf => absurd hf List.not_mem_nil
    | cons => cases h
  | cons f fields ih =>
    cases items with
    | nil => cases h
    | cons v items =>
      obtain ⟨r₁, hr₁, h⟩ := Option.bind_eq_some_iff.1 h
      exact .cons (hset f List.mem_cons_self v r r₁ hr₁)
        (ih (fun g hg => hset g (List.mem_cons_of_mem f hg)) h)

/-- A switch is taken only if it is a flag, or options that are null or what they should be. -/
theorem isToggle_of_toggle? [Inhabited ρ] (hset : Takes set fields)
    (hnodup : (fields.map (·.name)).Nodup) (hoptional : ∀ f ∈ fields, f.inObject = false) {v : Json}
    {t : Toggle ρ} (h : toggle? (fields.map (·.name)) set v = some t) : IsToggle fields v.tree := by
  unfold toggle? at h
  split at h
  · exact .inl trivial
  · obtain ⟨r, hr, -⟩ := Option.map_eq_some_iff.1 h
    unfold fromJson? at hr
    split at hr
    · obtain ⟨seen, hpasses⟩ := passes_of_fromMembers? hset hr
      refine .inr (hpasses.isRecord hnodup fun f hf hin => ?_)
      rw [hoptional f hf] at hin
      cases hin
    · exact .inr (inOrder_of_fromItems? hset hr)
    · cases hr

end Options

variable {v : Json}

theorem isText_of_asString? {s : String} (h : v.asString? = some s) : IsText v.tree := by
  unfold asString? at h
  split at h
  · trivial
  · cases h

theorem isFlag_of_asBool? {b : Bool} (h : v.asBool? = some b) : IsFlag v.tree := by
  unfold asBool? at h
  split at h
  · trivial
  · cases h

theorem isIndexSetting_of_indexSetting? {i : IndexSetting} (h : indexSetting? v = some i) :
    IsIndexSetting v.tree := by
  unfold indexSetting? at h
  split at h
  · exact .inl trivial
  · exact .inr trivial
  · cases h

theorem isResponseType_of_responseType? {r : ResponseType} (h : responseType? v = some r) :
    IsResponseType v.tree := by
  have hname {s : String} (h : ResponseType.all.find? (fun r => r.name == s) = some r) :
      s = r.name := by
    have hr := List.find?_some h
    exact (beq_iff_eq.1 hr).symm
  unfold responseType? at h
  dsimp only at h
  split at h
  · exact ⟨r, .inl (by rw [hname h]; rfl)⟩
  · exact ⟨r, .inr (by rw [hname h]; rfl)⟩
  · cases h

/-- Null is taken for every option. -/
theorem holds_of_optional? {α : Type} {read : Json → Option α} {P : Tree → Prop} {o : Option α}
    (hread : ∀ a, read v = some a → P v.tree) (h : optional? read v = some o) :
    v.tree = .null ∨ P v.tree := by
  unfold optional? at h
  split at h
  · exact .inl rfl
  · obtain ⟨a, ha, -⟩ := Option.map_eq_some_iff.1 h
    exact .inr (hread a ha)

theorem takes_modelField : Takes setModelField modelShape := by
  intro f hf v r r' h
  simp only [modelShape, List.mem_cons, List.not_mem_nil, or_false] at hf
  rcases hf with rfl | rfl | rfl | rfl | rfl | rfl <;>
    obtain ⟨o, ho, -⟩ := Option.map_eq_some_iff.1 h
  case inr.inr.inr.inl => exact holds_of_optional? (fun _ => isIndexSetting_of_indexSetting?) ho
  case inr.inr.inr.inr.inl => exact holds_of_optional? (fun _ => isFlag_of_asBool?) ho
  all_goals exact holds_of_optional? (fun _ => isText_of_asString?) ho

theorem takes_clientField : Takes setClientField clientShape := by
  intro f hf v r r' h
  simp only [clientShape, List.mem_cons, List.not_mem_nil, or_false] at hf
  rcases hf with rfl | rfl | rfl | rfl | rfl | rfl <;>
    obtain ⟨o, ho, -⟩ := Option.map_eq_some_iff.1 h
  case inr.inr.inr.inl => exact holds_of_optional? (fun _ => isFlag_of_asBool?) ho
  case inr.inr.inr.inr.inr =>
    exact holds_of_optional? (fun _ => isResponseType_of_responseType?) ho
  all_goals exact holds_of_optional? (fun _ => isText_of_asString?) ho

end Shapes

variable {α ρ : Type} {c c' : Cursor}

/-! ### Refusals -/

theorem lift_eq_ok {x : Except ReadError α} {a : α} : lift c x = .ok a ↔ x = .ok a := by
  cases x with
  | ok => exact ⟨fun h => by cases h; rfl, fun h => by cases h; rfl⟩
  | error => exact iff_of_false nofun nofun

theorem inside_eq_ok {step : PathStep} {x : Except Refusal (α × Cursor)} {a : α × Cursor} :
    inside step x = .ok a ↔ x = .ok a := by
  cases x with
  | ok => exact Iff.rfl
  | error => exact iff_of_false nofun nofun

theorem settle_eq_ok {close : Cursor → Cursor} {x : Except Refusal (α × Cursor)} {a : α × Cursor} :
    settle close x = .ok a ↔ x = .ok a := by
  cases x with
  | ok => exact Iff.rfl
  | error => exact iff_of_false nofun nofun

theorem refuse_ne_ok (expected : String) (c : Cursor) (a : α) : refuse expected c ≠ .ok a := by
  unfold refuse
  split
  · nofun
  · nofun
  · split <;> nofun

/-! ### Readers and shapes -/

/-- What a reader passes, if it succeeds, is a value with a property, after white space. -/
def Accepts (read : Cursor → Except Refusal (α × Cursor)) (P : Tree → Prop) : Prop :=
  ∀ c a c', read c = .ok (a, c') → ∃ b v, Space c.rest b ∧ Value b v c'.rest ∧ P v

/-- A field is read by its name where it has to be, and only what may be written for it. -/
structure Fits (f : Field ρ) (s : FieldShape) : Prop where
  name : f.name = s.name
  inObject : f.required = s.inObject
  inList : f.required = s.inList
  accepts : ∀ room r, Accepts (fun c => f.read room c r) s.holds

variable {P : Tree → Prop}

theorem accepts_readPlain {expected : String} {take : Json → Option α}
    (htake : ∀ v a, take v = some a → P v.tree) : Accepts (readPlain expected take) P := by
  intro c a c' h
  unfold readPlain at h
  dsimp only at h
  split at h
  · exact absurd h (refuse_ne_ok _ _ _)
  · obtain ⟨⟨v, d⟩, hv, h⟩ := except_bind_eq_ok.1 h
    dsimp only at h
    split at h
    · next htaken =>
      cases h
      exact ⟨_, _, space_skipSpace c, value_of_readScalar (lift_eq_ok.1 hv), htake v a htaken⟩
    · cases h

theorem accepts_readToggle [Inhabited ρ] {fields : List FieldShape} {set : Setter ρ}
    (hset : Takes set fields) (hnodup : (fields.map (·.name)).Nodup)
    (hoptional : ∀ f ∈ fields, f.inObject = false) (room : Nat) :
    Accepts (readToggle (fields.map (·.name)) set room) (IsToggle fields) := by
  intro c t c' h
  obtain ⟨⟨v, d⟩, hv, h⟩ := except_bind_eq_ok.1 h
  obtain ⟨b, hspace, hvalue⟩ := value_of_readValue (lift_eq_ok.1 hv)
  dsimp only at h
  split at h
  · next htoggle =>
    cases h
    exact ⟨b, _, hspace, hvalue, isToggle_of_toggle? hset hnodup hoptional htoggle⟩
  · cases h

theorem fits_field {name : String} {required : Bool}
    {read : Nat → Cursor → Except Refusal (α × Cursor)} {put : ρ → α → ρ}
    (h : ∀ room, Accepts (read room) P) :
    Fits (field name required read put) ⟨name, required, required, P⟩ where
  name := rfl
  inObject := rfl
  inList := rfl
  accepts := by
    intro room r c r' c' hread
    obtain ⟨⟨a, _⟩, ha, hread⟩ := except_bind_eq_ok.1 hread
    cases hread
    exact h room c a _ ha

/-! ### Objects -/

section Records

variable {fields : List (Field ρ)} {shapes : List FieldShape} {label : String} {room : Nat}
  {seen seen' : List String} {empty r r' : ρ}

/-- A member is passed after its name, before any others that are passed. -/
theorem passes_of_readMember (hfits : List.Forall₂ Fits fields shapes) {name : String}
    (h : readMember fields room seen name c r = .ok ((seen', r'), c')) :
    ∃ a b v, Space c.rest (':' :: a) ∧ Space a b ∧ Value b v c'.rest ∧ ∀ ms seen'',
      Passes shapes seen' ms seen'' → Passes shapes seen ((some name, v) :: ms) seen'' := by
  unfold readMember at h
  split at h
  · next hfind =>
    obtain ⟨d, hcolon, h⟩ := except_bind_eq_ok.1 h
    split at h
    · next hskip =>
      cases h
      obtain ⟨b, v, hspace, hv⟩ := value_of_skipValue (lift_eq_ok.1 hskip)
      refine ⟨_, b, v, space_of_readColon (lift_eq_ok.1 hcolon), hspace, hv, fun ms _ hrest =>
        .other (fun s hs heq => ?_) hrest⟩
      obtain ⟨f, hf, hfit⟩ := exists_of_mem_right hfits hs
      exact List.find?_eq_none.1 hfind f hf (by rw [hfit.name, Option.some.inj heq, beq_self_eq_true])
    · cases h
  · next f hfind =>
    split at h
    · cases h
    · next hseen =>
      obtain ⟨d, hcolon, h⟩ := except_bind_eq_ok.1 h
      obtain ⟨⟨_, _⟩, hread, h⟩ := except_bind_eq_ok.1 h
      cases h
      obtain ⟨s, hs, hfit⟩ := exists_of_mem_left hfits (List.mem_of_find?_eq_some hfind)
      have hname := List.find?_some hfind
      obtain rfl : s.name = name := hfit.name ▸ beq_iff_eq.1 hname
      obtain ⟨b, v, hspace, hv, hholds⟩ := hfit.accepts room r d _ _ (inside_eq_ok.1 hread)
      refine ⟨_, b, v, space_of_readColon (lift_eq_ok.1 hcolon), hspace, hv, fun ms _ hrest =>
        .field hs (fun hmem => hseen (List.contains_iff_mem.2 hmem)) hholds hrest⟩

theorem members_of_readMembersInto (hfits : List.Forall₂ Fits fields shapes) {fuel : Nat}
    {first : Bool} (h : readMembersInto fields room fuel first seen c r = .ok ((seen', r'), c')) :
    c'.peek = some '}' ∧ ∃ ms, Members first c.rest ms c'.rest ∧ Passes shapes seen ms seen' := by
  induction fuel generalizing first seen c r with
  | zero => cases h
  | succ fuel ih =>
    obtain ⟨⟨name?, d⟩, hkey, h⟩ := except_bind_eq_ok.1 h
    rw [lift_eq_ok, Json.inside_eq_ok] at hkey
    dsimp only at h
    split at h
    · cases h
      obtain ⟨hspace, hclose⟩ := brace_of_readKey hkey
      exact ⟨hclose, [], .nil hspace, .nil⟩
    · obtain ⟨⟨⟨seen₁, r₁⟩, e⟩, hmember, h⟩ := except_bind_eq_ok.1 h
      obtain ⟨_, _, hcomma, hquote, hname⟩ := named_of_readKey hkey
      obtain ⟨_, _, v, hcolon, hspace, hv, hpasses⟩ := passes_of_readMember hfits hmember
      obtain ⟨hclose, ms, hms, hrest⟩ := ih h
      exact ⟨hclose, _, .cons hcomma hquote hname hcolon hspace hv hms, hpasses ms _ hrest⟩

theorem value_of_readObject (hfits : List.Forall₂ Fits fields shapes)
    (hnodup : (shapes.map (·.name)).Nodup) (hpeek : c.peek = some '{')
    (h : readObject fields empty room c = .ok (r, c')) :
    ∃ v, Value c.rest v c'.rest ∧ IsRecord shapes v := by
  obtain ⟨room, -, h⟩ := except_bind_eq_ok.1 h
  rw [settle_eq_ok] at h
  obtain ⟨⟨⟨seen, r₁⟩, d⟩, hread, h⟩ := except_bind_eq_ok.1 h
  obtain ⟨hclose, ms, hms, hpasses⟩ := members_of_readMembersInto hfits hread
  dsimp only at h
  split at h
  · cases h
  · next hfind =>
    cases h
    refine ⟨.object ms, ?_, hpasses.isRecord hnodup fun s hs hin => ?_⟩
    · rw [rest_of_peek hpeek]
      exact .object (rest_of_peek hclose ▸ hms)
    · obtain ⟨f, hf, hfit⟩ := exists_of_mem_right hfits hs
      have hseen := List.find?_eq_none.1 hfind f hf
      rw [hfit.inObject, hin, hfit.name] at hseen
      simpa using hseen

/-! ### Lists -/

theorem space_of_endList (h : endList c = .ok c') : Space c.rest (']' :: c'.rest) := by
  have hspace := space_skipSpace c
  unfold endList at h
  dsimp only at h
  generalize c.skipSpace = b at h hspace
  split at h
  · cases h
  · next ch hpeek =>
    split at h
    · next hch =>
      cases h
      rwa [rest_of_peek hpeek, hch] at hspace
    · split at h
      · split at h <;> cases h
      · cases h

/-- Nothing comes before a closing bracket that is there. -/
theorem items_of_closed {t a : List Char} {vs : List Tree} (h : Items false (']' :: t) vs a) :
    vs = [] := by
  cases h with
  | nil => rfl
  | cons hcomma =>
    cases hcomma with | next h =>
    obtain ⟨cs, hcs, heq⟩ := h
    cases cs with
    | nil => cases heq
    | cons d cs =>
      cases heq
      exact absurd (hcs _ List.mem_cons_self) (by decide)

theorem items_of_readItemsInto (hfits : List.Forall₂ Fits fields shapes) {total index : Nat}
    {d : Cursor} (h : readItemsInto label total room index fields c r = .ok (r', d))
    (hend : endList d = .ok c') :
    ∃ vs, Items (index == 0) c.rest vs (']' :: c'.rest) ∧ InOrder shapes vs := by
  induction hfits generalizing index c r with
  | nil =>
    cases h
    exact ⟨[], .nil (space_of_endList hend), .nil fun _ hf => absurd hf List.not_mem_nil⟩
  | @cons f s fields shapes hfit _ ih =>
    obtain ⟨⟨more, a⟩, hmore, h⟩ := except_bind_eq_ok.1 h
    have hcomma := comma_of_moreElements (lift_eq_ok.1 hmore)
    dsimp only at h
    split at h
    · next htrue =>
      obtain ⟨⟨r₁, b⟩, hread, h⟩ := except_bind_eq_ok.1 h
      rw [if_pos htrue] at hcomma
      obtain ⟨_, hcomma, hspace⟩ := hcomma
      obtain ⟨_, v, hspace', hv, hholds⟩ := hfit.accepts room r a r₁ b (inside_eq_ok.1 hread)
      obtain ⟨vs, hvs, hrest⟩ := ih h
      exact ⟨v :: vs, .cons hcomma (hspace.trans hspace') hv hvs, .cons hholds hrest⟩
    · next hfalse =>
      rw [if_neg hfalse] at hcomma
      obtain ⟨hspace, hclose⟩ := hcomma
      split at h
      · cases h
      · next hrequired =>
        -- Where the list ends for one field, it ends for all that follow.
        obtain ⟨vs, hvs, hrest⟩ := ih h
        obtain rfl := items_of_closed (rest_of_peek hclose ▸ hvs)
        cases hvs with | nil hspace' =>
        cases hrest with | nil hlacking =>
        refine ⟨[], .nil (hspace.trans hspace'), .nil (List.forall_mem_cons.2 ⟨?_, hlacking⟩)⟩
        rw [← hfit.inList]
        exact Bool.eq_false_iff.2 hrequired

theorem value_of_readTuple (hfits : List.Forall₂ Fits fields shapes) (hpeek : c.peek = some '[')
    (h : readTuple label fields empty room c = .ok (r, c')) :
    ∃ v, Value c.rest v c'.rest ∧ IsRecord shapes v := by
  obtain ⟨room, -, h⟩ := except_bind_eq_ok.1 h
  rw [settle_eq_ok] at h
  obtain ⟨⟨r₁, d⟩, hread, h⟩ := except_bind_eq_ok.1 h
  obtain ⟨e, hend, h⟩ := except_bind_eq_ok.1 h
  cases h
  obtain ⟨vs, hvs, horder⟩ := items_of_readItemsInto hfits hread (lift_eq_ok.1 hend)
  rw [rest_of_peek hpeek]
  exact ⟨.list vs, .list hvs, horder⟩

theorem accepts_readRecord (hfits : List.Forall₂ Fits fields shapes)
    (hnodup : (shapes.map (·.name)).Nodup) (room : Nat) :
    Accepts (readRecord label fields empty room) (IsRecord shapes) := by
  intro c r c' h
  suffices hvalue : ∃ v, Value c.skipSpace.rest v c'.rest ∧ IsRecord shapes v by
    obtain ⟨v, hv⟩ := hvalue
    exact ⟨_, v, space_skipSpace c, hv⟩
  unfold readRecord at h
  dsimp only at h
  split at h
  · next hpeek => exact value_of_readObject hfits hnodup hpeek h
  · next hpeek => exact value_of_readTuple hfits hpeek h
  · exact absurd h (refuse_ne_ok _ _ _)

end Records

theorem items_of_readItems {item : Cursor → Except Refusal (α × Cursor)} (hitem : Accepts item P)
    {fuel index : Nat} {as : List α} (h : readItems item fuel index c = .ok (as, c')) :
    c'.peek = some ']' ∧ ∃ vs, Items (index == 0) c.rest vs c'.rest ∧ ∀ v ∈ vs, P v := by
  induction fuel generalizing index c as with
  | zero => cases h
  | succ fuel ih =>
    obtain ⟨⟨more, a⟩, hmore, h⟩ := except_bind_eq_ok.1 h
    have hcomma := comma_of_moreElements (lift_eq_ok.1 hmore)
    dsimp only at h
    split at h
    · next htrue =>
      obtain ⟨⟨_, b⟩, hread, h⟩ := except_bind_eq_ok.1 h
      obtain ⟨⟨_, d⟩, hrest, h⟩ := except_bind_eq_ok.1 h
      cases h
      rw [if_pos htrue] at hcomma
      obtain ⟨_, hcomma, hspace⟩ := hcomma
      obtain ⟨_, v, hspace', hv, hholds⟩ := hitem a _ b (inside_eq_ok.1 hread)
      obtain ⟨hclose, vs, hvs, hall⟩ := ih hrest
      exact ⟨hclose, v :: vs, .cons hcomma (hspace.trans hspace') hv hvs,
        List.forall_mem_cons.2 ⟨hholds, hall⟩⟩
    · next hfalse =>
      cases h
      rw [if_neg hfalse] at hcomma
      exact ⟨hcomma.2, [], .nil hcomma.1, fun _ hv => absurd hv List.not_mem_nil⟩

theorem accepts_readList {item : Nat → Cursor → Except Refusal (α × Cursor)}
    (hitem : ∀ room, Accepts (item room) P) (room : Nat) :
    Accepts (readList item room) (IsListOf P) := by
  intro c as c' h
  unfold readList at h
  dsimp only at h
  split at h
  · next hpeek =>
    obtain ⟨room, -, h⟩ := except_bind_eq_ok.1 h
    rw [settle_eq_ok] at h
    obtain ⟨⟨_, d⟩, hread, h⟩ := except_bind_eq_ok.1 h
    cases h
    obtain ⟨hclose, vs, hvs, hall⟩ := items_of_readItems (hitem room) hread
    refine ⟨_, .list vs, space_skipSpace c, ?_, hall⟩
    rw [rest_of_peek hpeek]
    exact .list (rest_of_peek hclose ▸ hvs)
  · exact absurd h (refuse_ne_ok _ _ _)

/-! ### Configurations -/

theorem fits_outputsFields : List.Forall₂ Fits outputsFields outputsShape :=
  .cons (fits_field (accepts_readToggle takes_modelField (by decide) (by decide)))
    (.cons (fits_field (accepts_readToggle takes_clientField (by decide) (by decide))) .nil)

theorem fits_targetFields : List.Forall₂ Fits targetFields targetShape :=
  .cons (fits_field fun _ => accepts_readPlain fun _ _ => isText_of_asString?)
    (.cons (fits_field fun _ => accepts_readPlain fun _ _ => isText_of_asString?)
      (.cons (fits_field fun _ => accepts_readPlain fun _ _ => isFlag_of_asBool?)
        (.cons (fits_field (accepts_readRecord fits_outputsFields (by decide))) .nil)))

theorem fits_configFields : List.Forall₂ Fits configFields configShape :=
  .cons (fits_field (accepts_readList (accepts_readRecord fits_targetFields (by decide)))) .nil

/-! ### Whole texts -/

theorem isBracketed_of_isConfig {v : Tree} (h : IsConfig v) : v.IsBracketed := by
  cases v with
  | list | object => trivial
  | null | bool | number | string => exact h

/-- Only white space follows the first value of a whole text. -/
theorem IsWhole.space_beyond {text : String} (h : IsWhole text) :
    Space (beyond 0 .outside (text.toList.dropWhile Cursor.isSpace).tail) [] := by
  obtain ⟨a, v, r, hspace, hv, hrest, hconfig⟩ := h
  have hbracket := isBracketed_of_isConfig hconfig
  rwa [hv.dropWhile_eq hbracket hspace, hv.beyond_eq hbracket]

/-- A text that is read begins, after white space, with a value of the shape of a configuration. It
is one whole value exactly if only white space follows, which is not asked for. -/
theorem begins_of_ofText {origin text : String} {targets : List Target}
    (h : ofText origin text = .ok targets) :
    ∃ a v r, Space text.toList a ∧ Value a v r ∧ IsConfig v ∧ (IsWhole text ↔ Space r []) := by
  unfold ofText at h
  split at h
  · next c hread =>
    obtain ⟨a, v, hspace, hv, hconfig⟩ :=
      accepts_readRecord fits_configFields (by decide) _ _ _ _ hread
    have hspace : Space text.toList a := hspace
    have hbracket := isBracketed_of_isConfig hconfig
    refine ⟨a, v, c.rest, hspace, hv, hconfig, fun hwhole => ?_, fun hrest => ?_⟩
    · have hbeyond := hwhole.space_beyond
      rwa [hv.dropWhile_eq hbracket hspace, hv.beyond_eq hbracket] at hbeyond
    · exact ⟨a, v, c.rest, hspace, hv, hrest, hconfig⟩
  · cases h

theorem begins_of_ofText_trailing :
    ofText "c" "\x7b\"apiDocs\":[]\x7d x" = .ok [] ∧
      ∃ a v r, Space "\x7b\"apiDocs\":[]\x7d x".toList a ∧ Value a v r ∧ IsConfig v ∧
        (IsWhole "\x7b\"apiDocs\":[]\x7d x" ↔ Space r []) :=
  have h : ofText "c" "\x7b\"apiDocs\":[]\x7d x" = .ok [] := by rfl
  ⟨h, begins_of_ofText h⟩

theorem not_isWhole_of_ofText :
    ¬∀ origin text targets, ofText origin text = .ok targets → IsWhole text := by
  intro h
  have hwhole := h "c" "\x7b\"apiDocs\":[]\x7d x" [] (by rfl)
  obtain ⟨cs, hcs, hrest⟩ := hwhole.space_beyond
  rw [List.append_nil] at hrest
  subst hrest
  simp [beyond, Cursor.isSpace] at hcs

end TypedClient.Config

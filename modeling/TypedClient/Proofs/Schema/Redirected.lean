import TypedClient.Proofs.Document.Aliased
import TypedClient.Proofs.Document.Redirected
import TypedClient.Proofs.Schema.ReadAlike
import TypedClient.Proofs.Schema.Similar

/-! Schemas with other references. Reading such a schema makes the same nodes as reading the schema
before, once one of the two names is put for the other; it fails where reading the other one does,
and with the same error. -/

namespace TypedClient

/-- The arena with references to `a` put to `b`. -/
def Arena.redirect (a b : String) (arena : Arena) : Arena :=
  ⟨arena.nodes.map (SchemaNode.redirect a b)⟩

theorem Arena.get?_redirect (a b : String) (arena : Arena) (x : NodeId) :
    (arena.redirect a b).get? x = (arena.get? x).map (SchemaNode.redirect a b) :=
  Array.getElem?_map

namespace Building

variable {a b : String} {α β : Type}

/-- Run from arenas that are the same with references to `a` put to `b`, the two computations leave
such arenas, and give values that `f` does not tell apart. -/
def Shadows (a b : String) (f : α → α) (m m' : Building α) : Prop :=
  ∀ s s', s.redirect a b = s'.redirect a b →
    (outcome m s).1.map f = (outcome m' s').1.map f ∧
      (outcome m s).2.redirect a b = (outcome m' s').2.redirect a b

namespace Shadows

variable {f : α → α} {g : β → β} {m m' : Building α}

theorem pure {x y : α} (h : f x = f y) : Shadows a b f (Pure.pure x) (Pure.pure y) :=
  fun _ _ hs => ⟨congrArg Except.ok h, hs⟩

theorem throw (e : Failure) : Shadows a b f (throw e : Building α) (MonadExcept.throw e) :=
  fun _ _ hs => ⟨rfl, hs⟩

theorem ofExcept (x : Except Failure α) :
    Shadows a b id (Building.ofExcept x) (Building.ofExcept x) := by
  cases x with
  | error e => exact throw e
  | ok x => exact pure rfl

theorem bind {k k' : α → Building β} (hm : Shadows a b f m m')
    (hk : ∀ x y, f x = f y → Shadows a b g (k x) (k' y)) :
    Shadows a b g (m >>= k) (m' >>= k') := by
  intro s s' hs
  rw [outcome_bind, outcome_bind]
  have hends := hm s s' hs
  generalize outcome m s = r, outcome m' s' = r' at hends
  obtain ⟨hvalues, harenas⟩ := hends
  rcases r with ⟨e | x, t⟩ <;> rcases r' with ⟨e' | y, t'⟩
  · exact ⟨congrArg Except.error (Except.error.inj hvalues), harenas⟩
  · cases hvalues
  · cases hvalues
  · exact hk x y (Except.ok.inj hvalues) t t' harenas

/-- The same value is given to both. -/
theorem next {k k' : α → Building β} (hm : Shadows a b id m m')
    (hk : ∀ x, Shadows a b g (k x) (k' x)) : Shadows a b g (m >>= k) (m' >>= k') :=
  hm.bind fun x _ hxy => (show x = _ from hxy) ▸ hk x

theorem map {h : α → β} (hm : Shadows a b id m m') : Shadows a b g (h <$> m) (h <$> m') := by
  rw [map_eq_pure_bind, map_eq_pure_bind]
  exact hm.next fun _ => pure rfl

theorem add {n n' : SchemaNode} (h : n.redirect a b = n'.redirect a b) :
    Shadows a b id (Building.add n) (Building.add n') := by
  intro s s' hs
  have hsize : s.size = s'.size := by
    have hsizes := congrArg Arena.size hs
    rwa [Arena.redirect, Arena.redirect, Arena.size, Arena.size, Array.size_map,
      Array.size_map] at hsizes
  have hpush : (s.push n).redirect a b = (s'.push n').redirect a b := by
    unfold Arena.redirect at hs ⊢
    unfold Arena.push
    rw [Array.map_push, Array.map_push, h, Arena.mk.inj hs]
  exact ⟨congrArg Except.ok hsize, hpush⟩

end Shadows

end Building

/-! ### Schemas -/

namespace Schema

open Building Json

variable {R : String → String → Prop} {a b : String} {fields fields' : Assoc String Json}

section Keywords

variable (h : NearMembers R fields fields')

include h

theorem text?_redirected {key : String} (hkey : key ∈ readKeys) (hreference : key ≠ "$ref") :
    text? fields key = text? fields' key :=
  bind_eq_of_rel (h.get? hkey) fun hu => hu.asString? hreference

theorem flag_redirected {key : String} (hkey : key ∈ readKeys) :
    flag fields key = flag fields' key := by
  rw [flag, flag, bind_eq_of_rel (h.get? hkey) Redirected.asBool?]

theorem items?_redirected {key : String} (hkey : key ∈ readKeys) (hliteral : key ∉ literalKeys) :
    Option.Rel (List.Forall₂ (Redirected R "")) (items? fields key) (items? fields' key) := by
  have hget := h.get? hkey
  unfold items?
  generalize Assoc.get? fields key = u, Assoc.get? fields' key = u' at hget
  cases hget with
  | none => exact .none
  | some hu => exact hu.asArray? hliteral

theorem literals_redirected : literals fields = literals fields' := by
  have henum : items? fields "enum" = items? fields' "enum" :=
    bind_eq_of_rel (h.get? (by decide)) fun hu => hu.literals_eq (by decide)
  rw [literals, literals, henum]

theorem declaredType_redirected (location : String) :
    declaredType fields location = declaredType fields' location := by
  have hget := h.get? (show "type" ∈ readKeys by decide)
  unfold declaredType
  generalize Assoc.get? fields "type" = u, Assoc.get? fields' "type" = u' at hget
  cases hget with
  | none => rfl
  | some hu =>
    generalize hkey : "type" = key at hu
    cases hu with
    | scalar | literals => rfl
    | reference => exact absurd hkey (by decide)
    | object => rfl
    | list _ hitems =>
      dsimp only
      rw [texts_redirected hitems]

theorem hintFlag?_redirected {key : String} (hkey : key ∈ readKeys)
    (hkey' : "x-" ++ key ∈ readKeys) : hintFlag? fields key = hintFlag? fields' key := by
  have hsome : ∀ {key}, key ∈ readKeys → Option.Rel (fun u u' : Json => u.asBool? = u'.asBool?)
      (Assoc.get? fields key) (Assoc.get? fields' key) := fun hkey =>
    rel_imp (h.get? hkey) fun _ _ _ _ hu => hu.asBool?
  exact bind_eq_of_rel (hint?_rel (hsome hkey) (hsome hkey')) fun hu => hu

theorem namedConstants_redirected (location : String) :
    namedConstants fields location = namedConstants fields' location := by
  have hread : ∀ {key}, key ∈ literalKeys → key ∈ readKeys →
      Option.Rel (fun u u' => readEnumMembers u = readEnumMembers u') (Assoc.get? fields key)
        (Assoc.get? fields' key) := fun hliteral hkey =>
    rel_imp (h.get? hkey) fun u _ u' _ hu => by
      cases hu with
      | scalar | literals | object => rfl
      | reference => exact absurd hliteral (by decide)
      | list hnot => exact absurd hliteral hnot
  have hhint : Option.Rel (fun u u' => readEnumMembers u = readEnumMembers u')
      (hint? fields "enumValues") (hint? fields' "enumValues") :=
    hint?_rel (hread (by decide) (by decide)) (hread (by decide) (by decide))
  unfold namedConstants
  generalize hint? fields "enumValues" = u, hint? fields' "enumValues" = u' at hhint
  cases hhint with
  | none => rfl
  | some hu => simp only [hu]

theorem plainKind?_redirected (declared : Option String) :
    plainKind? fields declared = plainKind? fields' declared := by
  unfold plainKind?
  rw [literals_redirected h, text?_redirected h (by decide) (by decide)]

theorem combination?_redirected :
    Option.Rel (fun p q => p.1 = q.1 ∧ List.Forall₂ (Redirected R "") p.2 q.2)
      (combination? fields) (combination? fields') := by
  unfold combination?
  refine findSome?_rel fun how _ => ?_
  have hread : how.name ∈ readKeys ∧ how.name ∉ literalKeys := by cases how <;> decide
  have hitems := items?_redirected h hread.1 hread.2
  generalize items? fields how.name = u, items? fields' how.name = u' at hitems
  cases hitems with
  | none => exact .none
  | some hvs =>
    cases hvs with
    | nil => exact .none
    | cons hv hvs => exact .some ⟨rfl, .cons hv hvs⟩

end Keywords

theorem classify_reference (reference location : String) :
    classify (.obj [("$ref", .str reference)]) location =
      add { kind := .reference (Pointer.componentName reference) } := by
  have hhints : classifyHints [("$ref", .str reference)] location = pure {} := by
    rw [classifyHints]
    rfl
  have hkind : ∀ declared, classifyKind [("$ref", .str reference)] declared location =
      pure (.reference (Pointer.componentName reference)) := by
    intro declared
    unfold classifyKind
    rfl
  rw [classify, hhints]
  simp only [hkind]
  rfl

/-- References have the same name as the ones before once `b` is put for `a`. -/
def PutsBack (R : String → String → Prop) (a b : String) : Prop :=
  ∀ s t, R s t → renamed a b (Pointer.componentName s) = renamed a b (Pointer.componentName t)

mutual

theorem shadows_classify (hR : PutsBack R a b) {v w : Json} (h : Near R v w) (location : String) :
    Shadows a b id (classify v location) (classify w location) := by
  cases h with
  | @object fields fields' h =>
    rw [classify, classify, declaredType_redirected h,
      text?_redirected h (show "description" ∈ readKeys by decide) (by decide),
      flag_redirected h (show "nullable" ∈ readKeys by decide),
      flag_redirected h (show "x-nullable" ∈ readKeys by decide)]
    refine (Shadows.ofExcept _).next fun declared => ?_
    refine (shadows_classifyHints hR h location).next fun hints => ?_
    refine (shadows_classifyKind hR h _ location).bind fun kind kind' hkind => .add ?_
    unfold SchemaNode.redirect
    rw [hkind]
  | other hv hw =>
    rw [classify_of_no_object hv, classify_of_no_object hw]
    exact .add rfl
termination_by (v.size, 0)
decreasing_by all_goals simp only [Json.size]; omega

theorem shadows_classifyHints (hR : PutsBack R a b) {fields fields' : Assoc String Json}
    (h : NearMembers R fields fields') (location : String) :
    Shadows a b id (classifyHints fields location) (classifyHints fields' location) := by
  rw [classifyHints, classifyHints, namedConstants_redirected h,
    hintFlag?_redirected h (show "isInterface" ∈ readKeys by decide) (by decide),
    hintFlag?_redirected h (show "isGenericType" ∈ readKeys by decide) (by decide),
    hintFlag?_redirected h (show "isGenericTypeDefinition" ∈ readKeys by decide) (by decide),
    hintFlag?_redirected h (show "isGenericParameter" ∈ readKeys by decide) (by decide)]
  have hdefinition : Option.Rel (Near R) (hint? fields "genericTypeDefinition")
      (hint? fields' "genericTypeDefinition") :=
    hint?_rel (rel_imp (h.get? (by decide)) fun _ _ _ _ hu => hu.near)
      (rel_imp (h.get? (by decide)) fun _ _ _ _ hu => hu.near)
  have harguments := shadows_classifyArguments hR h (location ++ ".genericArguments")
  rw [classifyArguments_eq, classifyArguments_eq] at harguments
  refine Shadows.next ?_ fun definition => harguments.next fun arguments =>
    (Shadows.ofExcept _).next fun enumValues => .pure rfl
  generalize hu : hint? fields "genericTypeDefinition" = u,
    hint? fields' "genericTypeDefinition" = u' at hdefinition
  cases hdefinition with
  | none => exact .pure rfl
  | some hv =>
    have hlt := size_lt_of_hint? hu
    exact (shadows_classify hR hv _).map
termination_by (Json.fieldSizes fields, 1)
decreasing_by all_goals omega

theorem shadows_classifyArguments (hR : PutsBack R a b) {fields fields' : Assoc String Json}
    (h : NearMembers R fields fields') (location : String) :
    Shadows a b id (classifyArguments fields location) (classifyArguments fields' location) := by
  have hlist : ∀ {key}, key ∈ readKeys → key ∉ literalKeys →
      Option.Rel (fun u u' : Json =>
        Option.Rel (List.Forall₂ (Redirected R "")) u.asArray? u'.asArray?)
        (Assoc.get? fields key) (Assoc.get? fields' key) := fun hkey hliteral =>
    rel_imp (h.get? hkey) fun _ _ _ _ hu => hu.asArray? hliteral
  have hhint := hint?_rel (hlist (show "genericArguments" ∈ readKeys by decide) (by decide))
    (hlist (by decide) (by decide))
  unfold classifyArguments
  generalize hu : hint? fields "genericArguments" = u, hint? fields' "genericArguments" = u' at hhint
  cases hhint with
  | none => exact .pure rfl
  | @some v v' hvs =>
    rw [Option.bind_some, Option.bind_some]
    generalize hitems : v.asArray? = items, v'.asArray? = items' at hvs
    cases hvs with
    | none => exact .pure rfl
    | @some items items' hall =>
      have hv : v = .arr items := by
        cases v with
        | arr => exact congrArg Json.arr (Option.some.inj hitems)
        | null | bool | num | str | obj => cases hitems
      have hlt := sizes_lt_of_hint? (hv ▸ hu)
      exact shadows_classifyAll hR hall _ 0
termination_by (Json.fieldSizes fields, 0)
decreasing_by all_goals omega

theorem shadows_classifyKind (hR : PutsBack R a b) {fields fields' : Assoc String Json}
    (h : NearMembers R fields fields') (declared : Option String) (location : String) :
    Shadows a b (SchemaKind.redirect a b) (classifyKind fields declared location)
      (classifyKind fields' declared location) := by
  have hobject : isObject fields declared = isObject fields' declared := by
    rw [isObject, isObject, has_of_rel (h.get? (by decide)), has_of_rel (h.get? (by decide))]
  have harray : isArray fields declared = isArray fields' declared := by
    rw [isArray, isArray, has_of_rel (h.get? (by decide))]
  have hreference : Option.Rel R (text? fields "$ref") (text? fields' "$ref") := by
    have hget := h.get? (show "$ref" ∈ readKeys by decide)
    unfold text?
    generalize Assoc.get? fields "$ref" = u, Assoc.get? fields' "$ref" = u' at hget
    cases hget with
    | none => exact .none
    | some hu => exact hu.asString?_reference
  have hcombination := combination?_redirected h
  have hitems := h.get? (show "items" ∈ readKeys by decide)
  rw [classifyKind, classifyKind, hobject, harray, plainKind?_redirected h]
  generalize text? fields "$ref" = r, text? fields' "$ref" = r' at hreference
  cases hreference with
  | some hr => exact .pure (congrArg SchemaKind.reference (hR _ _ hr))
  | none =>
    dsimp only
    split
    · exact (shadows_classifyObject hR h location).map
    · split
      · generalize hu : Assoc.get? fields "items" = u, Assoc.get? fields' "items" = u' at hitems
        cases hitems with
        | none => exact .pure rfl
        | some hv =>
          have hlt := Json.size_lt_of_get? hu
          exact (shadows_classify hR hv.near _).next fun _ => .pure rfl
      · split
        · next kind hkind =>
          refine .pure ?_
          obtain ⟨p, -, rfl⟩ := Option.map_eq_some_iff.1 hkind
          split <;> rfl
        · generalize hc : combination? fields = c, combination? fields' = c' at hcombination
          cases hcombination with
          | none => exact .pure rfl
          | @some p q hp =>
            obtain ⟨how, members⟩ := p
            obtain ⟨how', members'⟩ := q
            obtain ⟨rfl, hall⟩ := hp
            have hlt := sizes_lt_of_combination? hc
            exact (shadows_classifyAll hR hall _ 0).next fun _ => .pure rfl
termination_by (Json.fieldSizes fields, 2)
decreasing_by all_goals omega

theorem shadows_classifyObject (hR : PutsBack R a b) {fields fields' : Assoc String Json}
    (h : NearMembers R fields fields') (location : String) :
    Shadows a b id (classifyObject fields location) (classifyObject fields' location) := by
  have hproperties := h.get? (show "properties" ∈ readKeys by decide)
  have hallOf := items?_redirected h (show "allOf" ∈ readKeys by decide) (by decide)
  have hadditional := h.get? (show "additionalProperties" ∈ readKeys by decide)
  have hrequired := items?_redirected h (show "required" ∈ readKeys by decide) (by decide)
  have htexts : ((items? fields "required").getD []).filterMap asString? =
      ((items? fields' "required").getD []).filterMap asString? := by
    generalize items? fields "required" = u, items? fields' "required" = u' at hrequired
    cases hrequired with
    | none => rfl
    | some hitems => exact texts_redirected hitems
  rw [classifyObject, classifyObject, htexts]
  refine Shadows.next ?_ fun properties => Shadows.next ?_ fun allOf =>
    Shadows.next ?_ fun additional => .pure rfl
  · generalize hu : Assoc.get? fields "properties" = u, Assoc.get? fields' "properties" = u'
      at hproperties
    cases hproperties with
    | none => exact .pure rfl
    | @some v v' hv =>
      generalize hkey : "properties" = key at hv
      cases hv with
      | @object _ members members' hkeys hvalues =>
        have hlt := fieldSizes_lt_of_get? hu
        exact shadows_classifyMembers hR (members_of_redirected hkeys hvalues) location
      | scalar hobject =>
        cases v with
        | obj => cases hobject
        | null | bool | num | str | arr => exact .pure rfl
      | literals | reference | list => exact .pure rfl
  · generalize hu : items? fields "allOf" = u, items? fields' "allOf" = u' at hallOf
    cases hallOf with
    | none => exact .pure rfl
    | some hall =>
      have hlt := sizes_lt_of_items? hu
      exact shadows_classifyAll hR hall _ 0
  · generalize hu : Assoc.get? fields "additionalProperties" = u,
      Assoc.get? fields' "additionalProperties" = u' at hadditional
    cases hadditional with
    | none => exact .pure rfl
    | @some v v' hv =>
      have hlt := Json.size_lt_of_get? hu
      have hschema : Shadows a b id
          (classify v (location ++ ".additionalProperties") >>= fun id =>
            pure (some (Additional.schema id)))
          (classify v' (location ++ ".additionalProperties") >>= fun id =>
            pure (some (Additional.schema id))) :=
        (shadows_classify hR hv.near _).next fun _ => .pure rfl
      generalize hkey : "additionalProperties" = key at hv
      cases hv with
      | scalar =>
        cases v with
        | bool flag => cases flag <;> exact .pure rfl
        | null => exact .pure rfl
        | num | str | arr | obj => exact hschema
      | reference => exact absurd hkey (by decide)
      | literals | list | object => exact hschema
termination_by (Json.fieldSizes fields, 1)
decreasing_by all_goals omega

theorem shadows_classifyMembers (hR : PutsBack R a b) {members members' : List (String × Json)}
    (h : RedirectedMembers R members members') (location : String) :
    Shadows a b id (classifyMembers members location) (classifyMembers members' location) := by
  match members, members', h with
  | [], [], _ =>
    rw [classifyMembers]
    exact .pure rfl
  | (name, v) :: rest, (name', v') :: rest', .cons hv hrest =>
    obtain ⟨rfl, hv⟩ := hv
    rw [classifyMembers, classifyMembers]
    exact (shadows_classify hR hv.near _).next fun _ =>
      (shadows_classifyMembers hR hrest location).next fun _ => .pure rfl
termination_by (Json.fieldSizes members, 0)
decreasing_by all_goals simp only [Json.fieldSizes]; omega

theorem shadows_classifyAll (hR : PutsBack R a b) {vs vs' : List Json}
    (h : List.Forall₂ (Redirected R "") vs vs') (location : String) (index : Nat) :
    Shadows a b id (classifyAll vs location index) (classifyAll vs' location index) := by
  cases h with
  | nil =>
    rw [classifyAll]
    exact .pure rfl
  | @cons v v' rest rest' hv hrest =>
    rw [classifyAll, classifyAll]
    exact (shadows_classify hR hv.near _).next fun _ =>
      (shadows_classifyAll hR hrest location (index + 1)).next fun _ => .pure rfl
termination_by (Json.sizes vs, 0)
decreasing_by all_goals simp only [Json.sizes]; omega

end

end Schema

end TypedClient

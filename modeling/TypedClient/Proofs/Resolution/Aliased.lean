import TypedClient.Proofs.Document.Aliased
import TypedClient.Proofs.Resolution.Progress

/-! What resolution makes of another name for a schema. The name is registered with the type of the
schema, and nothing is made for it; so a state that has come from where its document says has also
come from where the document says with the references put back, once the name is forgotten. -/

namespace TypedClient

open Relation

namespace Resolver

variable {d : Document} {r : Resolver} {fresh target name : String} {x : NodeId} {t : TypeId}
  {source : Source} {made : TypeInfo} {nameable : Bool}

/-! ### Forgetting a name -/

/-- The state without the type of that name. -/
def forget (r : Resolver) (fresh : String) : Resolver :=
  { r with registry := r.registry.filter fun p => p.1 != fresh }

theorem get?_forget_eq_some : Assoc.get? (r.forget fresh).registry name = some t ↔
    name ≠ fresh ∧ Assoc.get? r.registry name = some t := by
  rw [show Assoc.get? (r.forget fresh).registry name =
    if name != fresh then Assoc.get? r.registry name else none from
      Assoc.get?_filter r.registry (fun key => key != fresh) name]
  by_cases hname : name = fresh <;> simp [hname]

theorem genericity_forget {generics : Genericity} {start : TypeInfo}
    (h : generics.Makes r start made nameable) :
    generics.Makes (r.forget fresh) start made nameable := by
  cases h with
  | plain => exact .plain
  | definition ha => exact .definition ha
  | applied hd ha => exact .applied (r := r.forget fresh) hd ha
  | keyed ha => exact .keyed ha
  | openRecord hk => exact .openRecord hk
  | record hk hv => exact .record hk hv

theorem makes_forget (h : source.Makes r made nameable) :
    source.Makes (r.forget fresh) made nameable := by
  cases h with
  | openArray => exact .openArray (r := r.forget fresh)
  | array hu => exact .array (r := r.forget fresh) hu
  | enum => exact .enum
  | object hb hp hg => exact .object (r := r.forget fresh) hb hp (genericity_forget hg)

theorem redirect_of_makes {a b : String} (h : source.Makes r made nameable) :
    source.redirect a b = source := by
  cases h <;> rfl

/-- No type is made for a node that is a reference. -/
theorem not_made_of_refers (h : d.Refers x name) : ¬ Made d r x source made nameable t := by
  intro hmade
  have htold := hmade.told
  rw [h.source?_eq] at htold
  cases htold
  cases hmade.makes

section Alias

variable (ha : d.IsAlias fresh target) (hne : target ≠ fresh) (hf : Faithful d r)
  (huncut : r.cycles = [])

include ha

theorem ne_of_made (hn : Assoc.get? d.schemas name = some x)
    (h : Made d r x source made nameable t) : name ≠ fresh := by
  rintro rfl
  obtain ⟨node, hnode, hrefers⟩ := ha
  rw [hnode] at hn
  cases hn
  exact not_made_of_refers hrefers h

theorem made_unaliased (h : Made d r x source made nameable t) :
    Made (d.unaliased fresh target) (r.forget fresh) x source made nameable t where
  told := by
    rw [Document.source?_unaliased, h.told, Option.map_some, redirect_of_makes h.makes]
  makes := makes_forget h.makes
  titled := by
    obtain ⟨info, hinfo, htitles⟩ := h.titled
    refine ⟨info, hinfo, ?_⟩
    cases htitles with
    | own hn hp =>
      exact .own (Document.get?_unaliased_eq_some.2 ⟨ne_of_made ha hn h, hn⟩) hp
    | kept hid =>
      refine .kept fun hmay hdeclares => hid hmay ?_
      obtain ⟨name, hn⟩ := hdeclares
      exact ⟨name, (Document.get?_unaliased_eq_some.1 hn).2⟩
  marked := h.marked

theorem rooted_unaliased (h : Rooted d r t) :
    Rooted (d.unaliased fresh target) (r.forget fresh) t := by
  rcases h with h | ⟨name, h⟩ | ⟨id, source, made, nameable, ht, hmade⟩
  · exact .inl h
  · exact .inr (.inl ⟨name, h⟩)
  · exact .inr (.inr ⟨id, source, made, nameable, ht, made_unaliased ha hmade⟩)

include hf huncut

/-- The other name is registered with the type of the schema. -/
theorem registered_alias (hn : Assoc.get? r.registry fresh = some t) :
    Assoc.get? r.registry target = some t := by
  obtain ⟨node, hnode, hrefers⟩ := ha
  obtain ⟨root, hroot, ht⟩ := hf.declared hn
  rw [hnode] at hroot
  cases hroot
  rcases hf.comes ht with ⟨source, htold, hpasses⟩ | ⟨source, made, nameable, hmade⟩
  · rw [hrefers.source?_eq] at htold
    cases htold
    cases hpasses with
    | schema htarget => exact htarget
    | cut hcut => exact absurd huncut hcut
  · exact absurd hmade (not_made_of_refers hrefers)

include hne

theorem comes_unaliased (h : Comes d r x t) :
    Comes (d.unaliased fresh target) (r.forget fresh) x t := by
  rcases h with ⟨source, htold, hpasses⟩ | ⟨source, made, nameable, hmade⟩
  · refine .inl ⟨source.redirect fresh target, ?_, ?_⟩
    · rw [Document.source?_unaliased, htold, Option.map_some]
    · cases hpasses with
      | any => exact .any
      | builtin hn => exact .builtin hn
      | cut hcut => exact absurd huncut hcut
      | node hc => exact .node hc
      | @schema name t hn =>
        refine .schema (get?_forget_eq_some.2 ?_)
        by_cases hname : name = fresh
        · subst hname
          rw [renamed_self]
          exact ⟨hne, registered_alias ha hf huncut hn⟩
        · rw [renamed_of_ne hname]
          exact ⟨hname, hn⟩
  · exact .inr ⟨source, made, nameable, made_unaliased ha hmade⟩

/-- Without the other name, all types come from where the document says with the references put
back. -/
theorem Faithful.unaliased : Faithful (d.unaliased fresh target) (r.forget fresh) where
  bounded := ⟨hf.bounded.any, hf.bounded.intrinsics,
    fun hn => hf.bounded.registry (get?_forget_eq_some.1 hn).2, hf.bounded.memo,
    hf.bounded.nameable⟩
  comes ht := comes_unaliased ha hne hf huncut (hf.comes ht)
  rooted ht := rooted_unaliased ha (hf.rooted ht)
  declared hn := by
    obtain ⟨hname, hn⟩ := get?_forget_eq_some.1 hn
    obtain ⟨root, hroot, ht⟩ := hf.declared hn
    exact ⟨root, Document.get?_unaliased_eq_some.2 ⟨hname, hroot⟩, ht⟩
  registered hn ht := by
    obtain ⟨hname, hn⟩ := Document.get?_unaliased_eq_some.1 hn
    exact get?_forget_eq_some.2 ⟨hname, hf.registered hn ht⟩
  nameable hn := hf.nameable hn
  covered ht := rooted_unaliased ha (hf.covered ht)

theorem Sound.unaliased (hs : Sound d r) :
    Sound (d.unaliased fresh target) (r.forget fresh) where
  next ht := by
    rw [Document.next_unaliased]
    exact hs.next ht
  reference ht hrefers := by
    obtain ⟨other, hother, rfl⟩ := hrefers.of_unaliased
    rcases hs.reference ht hother with hn | ⟨-, hcut, -⟩
    · refine .inl (get?_forget_eq_some.2 ?_)
      by_cases hname : other = fresh
      · subst hname
        rw [renamed_self]
        exact ⟨hne, registered_alias ha hf huncut hn⟩
      · rw [renamed_of_ne hname]
        exact ⟨hname, hn⟩
    · exact absurd huncut hcut
  root hn := by
    obtain ⟨hname, hn⟩ := get?_forget_eq_some.1 hn
    obtain ⟨root, hroot, hm⟩ := hs.root hn
    exact ⟨root, Document.get?_unaliased_eq_some.2 ⟨hname, hroot⟩, hm⟩
  cycles cycle hc := by
    rw [show (r.forget fresh).cycles = [] from huncut] at hc
    cases hc
  acyclic _ := by
    intro name t hn
    obtain ⟨hname, hn⟩ := get?_forget_eq_some.1 hn
    have hacc := ha.acc hne (hs.acyclic huncut hn)
    rwa [renamed_of_ne hname] at hacc

omit hf in
theorem Finished.unaliased [MediaType.Reading] (hr : Finished d r) :
    Finished (d.unaliased fresh target) (r.forget fresh) where
  faithful := hr.faithful.unaliased ha hne huncut
  types := ⟨hr.types.graph, hr.types.nameable⟩
  sound := hr.sound.unaliased ha hne hr.faithful huncut
  distinct := hr.distinct.sublist (List.filter_sublist.map Prod.fst)
  named hn := by
    obtain ⟨hname, hn⟩ := Document.get?_unaliased_eq_some.1 hn
    obtain ⟨t, ht, hregistered⟩ := hr.named hn
    exact ⟨t, ht, get?_forget_eq_some.2 ⟨hname, hregistered⟩⟩
  asked := hr.asked

end Alias

/-! ### What cannot fail -/

/-- The node of another name cannot fail when the schema cannot, and all other nodes do not when
they do not with the references put back. -/
theorem Live.of_unaliased (ha : d.IsAlias fresh target) (hne : target ≠ fresh)
    {L : NodeId → Prop} (hL : Live (d.unaliased fresh target) L)
    (htarget : ∃ root, Assoc.get? d.schemas target = some root ∧ L root) :
    Live d fun x => L x ∨ d.Refers x target where
  source := by
    rintro x (hx | hx)
    · have hsource := hL.source hx
      rwa [Document.source?_unaliased, Option.isSome_map] at hsource
    · rw [hx.source?_eq]
      rfl
  next := by
    rintro x (hx | hx) c hc
    · exact .inl (hL.next hx c (by rwa [Document.next_unaliased]))
    · rw [hx.next_eq_nil] at hc
      cases hc
  reference := by
    rintro x name (hx | hx) hrefers
    · obtain ⟨root, hroot, hlive⟩ := hL.reference hx hrefers.unaliased
      by_cases hname : name = fresh
      · obtain ⟨node, hnode, hto⟩ := ha
        exact ⟨node, hname ▸ hnode, .inr hto⟩
      · rw [renamed_of_ne hname] at hroot
        exact ⟨root, (Document.get?_unaliased_eq_some.1 hroot).2, .inl hlive⟩
    · rw [Document.Refers, hx] at hrefers
      cases hrefers
      obtain ⟨root, hroot, hlive⟩ := htarget
      exact ⟨root, hroot, .inl hlive⟩
  named := by
    rintro name root r source made hx hn hf hordered huncut htold hmakes
    have hrefers : ∀ other, ¬ d.Refers root other := by
      intro other hrefers
      rw [hrefers.source?_eq] at htold
      cases htold
      cases hmakes
    have hname : name ≠ fresh := by
      rintro rfl
      obtain ⟨node, hnode, hto⟩ := ha
      rw [hnode] at hn
      cases hn
      exact hrefers _ hto
    refine hL.named (hx.resolve_right (hrefers _))
      (Document.get?_unaliased_eq_some.2 ⟨hname, hn⟩) (hf.unaliased ha hne huncut) hordered huncut
      ?_ (makes_forget hmakes)
    rw [Document.source?_unaliased, htold, Option.map_some, redirect_of_makes hmakes]

end Resolver

end TypedClient

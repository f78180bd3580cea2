import TypedClient.Client.MediaTypeGrammar
import TypedClient.Proofs.Document.Upgraded
import TypedClient.Proofs.Model.References
import TypedClient.Proofs.Resolution.Mirrored
import TypedClient.Proofs.Resolution.Progress
import TypedClient.Text.AsciiTable

/-! Projections of documents that say the same. When no schema follows itself, one of them is built
when the other is, and their models are the same but for the order. -/

namespace TypedClient

open Relation

/-- Lists whose items have distinct keys, where each item has one with its key in the other list
that gives the same, give the same in some order. -/
theorem perm_map_of_keys {α β γ κ : Type} {xs : List α} {ys : List β} {k : α → κ} {k' : β → κ}
    {f : α → γ} {f' : β → γ} (hxs : (xs.map k).Nodup) (hys : (ys.map k').Nodup)
    (h : ∀ x ∈ xs, ∃ y ∈ ys, k' y = k x ∧ f' y = f x)
    (h' : ∀ y ∈ ys, ∃ x ∈ xs, k x = k' y ∧ f x = f' y) : (xs.map f).Perm (ys.map f') := by
  have hpairs : (xs.map fun x => (k x, f x)).Perm (ys.map fun y => (k' y, f' y)) := by
    have hnodup : (xs.map fun x => (k x, f x)).Nodup :=
      List.Nodup.of_map Prod.fst (by rwa [List.map_map])
    have hnodup' : (ys.map fun y => (k' y, f' y)).Nodup :=
      List.Nodup.of_map Prod.fst (by rwa [List.map_map])
    refine (List.perm_ext_iff_of_nodup hnodup hnodup').2 fun p => ?_
    rw [List.mem_map, List.mem_map]
    constructor
    · rintro ⟨x, hx, rfl⟩
      obtain ⟨y, hy, hk, hf⟩ := h x hx
      exact ⟨y, hy, Prod.ext hk hf⟩
    · rintro ⟨y, hy, rfl⟩
      obtain ⟨x, hx, hk, hf⟩ := h' y hy
      exact ⟨x, hx, Prod.ext hk hf⟩
  have hmapped := hpairs.map Prod.snd
  rwa [List.map_map, List.map_map] at hmapped

theorem Model.nodup_modelTypes (r : ResolvedTypes) : (modelTypes r).Nodup :=
  List.Nodup.filter _ (nodup_eraseDups _)

namespace Resolver

variable {d d' : Document} {M : NodeId → NodeId → Prop} {r r' : Resolver} {t t' : TypeId}

/-! ### What can be built -/

/-- Nodes that are related to nodes with types cannot fail. -/
theorem live_of_alike (h : d.Alike d' M) (hd : d.Forest) (hr : Steady d r)
    (huncut : r.cycles = []) : Live d' fun x' => ∃ x t, M x x' ∧ r.Typed x t where
  source := by
    rintro x' ⟨x, t, hM, hx⟩
    have hsource := h.source? hM
    obtain ⟨source, htold⟩ : ∃ source, d.source? x = some source := by
      rcases hr.faithful.comes hx with ⟨source, htold, -⟩ | ⟨source, _, _, hmade⟩
      · exact ⟨source, htold⟩
      · exact ⟨source, hmade.told⟩
    rw [htold] at hsource
    generalize d'.source? x' = source' at hsource
    cases hsource
    rfl
  next := by
    rintro x' ⟨x, t, hM, hx⟩ c' hc'
    obtain ⟨c, hc, hcM⟩ := exists_of_mem_right (h.next hM) hc'
    obtain ⟨u, hu⟩ := Option.isSome_iff_exists.1 (hr.sound.next hx c hc)
    exact ⟨c, u, hcM, hu⟩
  reference := by
    rintro x' name ⟨x, t, hM, hx⟩ hrefers
    rcases hr.sound.reference hx ((h.refers hM name).2 hrefers) with hn | ⟨-, hcut, -⟩
    · obtain ⟨root, hroot, hu⟩ := hr.faithful.declared hn
      obtain ⟨root', hroot', hrelated⟩ := h.named_left hroot
      exact ⟨root', hroot', root, t, hrelated, hu⟩
    · exact absurd huncut hcut
  named := by
    rintro name root' r' source' made' ⟨root, t, hM, hx⟩ hn' hf' hordered huncut' htold' hmakes'
    have htwins : Twins d d' M r r' := ⟨h, hd, hr, hf', hordered, huncut, huncut'⟩
    have hn := (h.root hM name).2 hn'
    have hsource := h.source? hM
    rw [htold'] at hsource
    rcases hr.faithful.comes hx with ⟨source, htold, hpasses⟩ | ⟨source, made, nameable, hmade⟩
    · rw [htold] at hsource
      cases hsource with
      | some hsource => cases hpasses <;> cases hsource <;> cases hmakes'
    · rw [hmade.told] at hsource
      cases hsource with
      | some hsource =>
        obtain ⟨-, rfl⟩ := makes_mirrored hr.types.graph hordered hmade.told hsource hmade.makes
          hmakes' fun _ hcM hu hu' => htwins.lookAlike hcM hu hu'
        obtain ⟨info, -, htitles⟩ := hmade.titled
        cases htitles with
        | @own other parsed _ ho hp =>
          rw [hd.name_unique hn ho]
          exact ⟨parsed, hp⟩
        | kept hid => exact absurd ⟨name, hn⟩ (hid rfl)

/-! ### The models -/

section Models

variable (h : Twins d d' M r r')

include h

/-- A name has types that stand for the same. -/
theorem Twins.registered {name : String} (hn : Assoc.get? r.registry name = some t)
    (hn' : Assoc.get? r'.registry name = some t') : Pairs M r r' t t' := by
  obtain ⟨root, hroot, hx⟩ := h.left.faithful.declared hn
  obtain ⟨root', hroot', hx'⟩ := h.right.declared hn'
  obtain ⟨other', ho', hM⟩ := h.alike.named_left hroot
  rw [hroot'] at ho'
  cases ho'
  exact .inr ⟨root, root', hM, hx, hx'⟩

end Models

/-- A type that has a model is registered under its full name. -/
theorem registered_of_mem_modelTypes [MediaType.Reading] (hr : Finished d r)
    (ht : t ∈ Model.modelTypes (Projection.typesOf r)) :
    Assoc.get? r.registry (r.graph.get t).fullName = some t ∧ (r.graph.get t).isModel = true := by
  obtain ⟨⟨name, hn⟩, hmodel⟩ := (Model.mem_modelTypes hr.distinct).1 ht
  obtain ⟨root, -, hx⟩ := hr.faithful.declared hn
  obtain ⟨own, _, hregistered, -, -, -, hfull⟩ :=
    ownName_of_isModel hr.faithful hr.types.graph (hr.faithful.rooted hx) hmodel
  rw [hfull]
  exact ⟨hregistered, hmodel⟩

/-- Types that have models have distinct full names. -/
theorem nodup_fullNames [MediaType.Reading] (hr : Finished d r) :
    ((Model.modelTypes (Projection.typesOf r)).map fun t => (r.graph.get t).fullName).Nodup := by
  refine List.Nodup.map_on (fun t ht u hu heq => ?_) (Model.nodup_modelTypes _)
  obtain ⟨hn, -⟩ := registered_of_mem_modelTypes hr ht
  obtain ⟨hn', -⟩ := registered_of_mem_modelTypes hr hu
  rw [heq] at hn
  exact Option.some.inj (hn.symm.trans hn')

section Models

variable [MediaType.Reading] (h : Twins d d' M r r') (hr : Finished d r) (hr' : Finished d' r')

include h hr hr'

/-- The types of one name have the same model, if one of them has any. -/
theorem Twins.same_model {name : String} (hn : Assoc.get? r.registry name = some t)
    (hn' : Assoc.get? r'.registry name = some t') :
    (t ∈ Model.modelTypes (Projection.typesOf r) ↔
      t' ∈ Model.modelTypes (Projection.typesOf r')) ∧
    (r.graph.get t).fullName = (r'.graph.get t').fullName ∧
    Model.entry r.graph t = Model.entry r'.graph t' := by
  have hpair := h.registered hn hn'
  have hmirrors : TypeGraph.Mirrors r.graph r'.graph (Pairs M r r') := h.mirrors
  have hsame := hmirrors.get hpair
  refine ⟨?_, hsame.fullName, Model.entry_mirrored hmirrors h.left.types.graph h.ordered hpair⟩
  rw [Model.mem_modelTypes hr.distinct, Model.mem_modelTypes hr'.distinct]
  show _ ∧ (r.graph.get t).isModel = true ↔ _ ∧ (r'.graph.get t').isModel = true
  rw [hsame.isModel]
  exact and_congr_left fun _ => ⟨fun _ => ⟨name, hn'⟩, fun _ => ⟨name, hn⟩⟩

theorem Twins.models_perm :
    (Model.project (Projection.typesOf r)).Perm (Model.project (Projection.typesOf r')) := by
  have hentries : ((Model.modelTypes (Projection.typesOf r)).map (Model.entry r.graph)).Perm
      ((Model.modelTypes (Projection.typesOf r')).map (Model.entry r'.graph)) := by
    refine perm_map_of_keys (nodup_fullNames hr) (nodup_fullNames hr') (fun t ht => ?_)
      fun t' ht' => ?_
    · obtain ⟨hn, -⟩ := registered_of_mem_modelTypes hr ht
      obtain ⟨root, hroot, -⟩ := hr.faithful.declared hn
      obtain ⟨root', hroot', -⟩ := h.alike.named_left hroot
      obtain ⟨t', -, hn'⟩ := hr'.named hroot'
      obtain ⟨hmem, hfull, hentry⟩ := h.same_model hr hr' hn hn'
      exact ⟨t', hmem.1 ht, hfull.symm, hentry.symm⟩
    · obtain ⟨hn', -⟩ := registered_of_mem_modelTypes hr' ht'
      obtain ⟨root', hroot', -⟩ := hr'.faithful.declared hn'
      obtain ⟨root, hroot, -⟩ := h.alike.named_right hroot'
      obtain ⟨t, -, hn⟩ := hr.named hroot
      obtain ⟨hmem, hfull, hentry⟩ := h.same_model hr hr' hn hn'
      exact ⟨t, hmem.2 ht', hfull, hentry⟩
  exact ((Model.groupBy_perm _ _).map _).trans
    (hentries.trans ((Model.groupBy_perm _ _).map _).symm)

end Models

/-- Where no schema follows itself, a document is built when one that says the same is, and has the
same models in some order. -/
theorem build_of_alike [MediaType.Reading] [Text.Transliteration] {root root' : Json}
    (h : Document.ofJson root = .ok d)
    (h' : Document.ofJson root' = .ok d') (halike : d.Alike d' M)
    (hacyclic : ∀ name, ¬ TransGen d.Follows name name) {options : Client.Options}
    {p : Projection} (hp : Projection.build d options = .ok p) :
    ∃ p', Projection.build d' options = .ok p' ∧ p.models.Perm p'.models := by
  have hd := Document.forest_of_ofJson h
  obtain ⟨r, hr, -, hmodels⟩ := finished_of_build h hp
  have huncut := hr.sound.uncut hacyclic
  have hacyclic' := halike.acyclic hacyclic
  have hlive := live_of_alike halike hd hr.toSteady huncut
  obtain ⟨p', hp'⟩ := build_of_live (Document.wellFormed_of_ofJson h') options
    hacyclic' hlive
    (fun hn' => by
      obtain ⟨root, hn, hM⟩ := halike.named_right hn'
      obtain ⟨t, ht, -⟩ := hr.named hn
      exact ⟨root, t, hM, ht⟩)
    (fun id' hid' => by
      obtain ⟨o', ho', hid'⟩ := List.mem_flatMap.1 hid'
      obtain ⟨o, ho, hmatches⟩ := halike.operation' o' ho'
      obtain ⟨id, hid, hM⟩ := exists_of_mem_right (Client.askedNodes_matches hmatches) hid'
      obtain ⟨t, ht⟩ := hr.asked o ho id hid
      exact ⟨id, t, hM, ht⟩)
  obtain ⟨r', hr', -, hmodels'⟩ := finished_of_build h' hp'
  have htwins : Twins d d' M r r' := ⟨halike, hd, hr.toSteady, hr'.faithful, hr'.types.graph,
    huncut, hr'.sound.uncut hacyclic'⟩
  rw [hmodels]
  refine ⟨p', hp', ?_⟩
  rw [hmodels']
  exact htwins.models_perm hr hr'

end Resolver

namespace Projection

/-- The order in which a document without cyclic schemas declares its named schemas does not matter:
in any order they are read, they are built when they were built before, and the models are the same
but for their order. -/
theorem build_reordered [MediaType.Reading] [Text.Transliteration] {root root' : Json}
    {d : Document}
    (h : Json.Reordered (Document.schemasPath root) root root') (hd : Document.ofJson root = .ok d)
    (hacyclic : ∀ name, ¬ TransGen d.Follows name name) :
    ∃ d', Document.ofJson root' = .ok d' ∧ ∀ options,
      ((∃ p, build d options = .ok p) ↔ ∃ p', build d' options = .ok p') ∧
      ∀ p p', build d options = .ok p → build d' options = .ok p' → p.models.Perm p'.models := by
  obtain ⟨d', hd', hreread⟩ := Document.reread_of_reordered h hd
  have hwell := Document.wellFormed_of_ofJson hd
  have hwell' := Document.wellFormed_of_ofJson hd'
  have halike := hreread.alike hwell hwell'
  have hback : Json.Reordered (Document.schemasPath root') root' root := by
    rw [Document.schemasPath_of_reordered h]
    exact h.symm
  obtain ⟨other, hother, hreread'⟩ := Document.reread_of_reordered hback hd'
  obtain rfl : d = other := Except.ok.inj (hd.symm.trans hother)
  have halike' := hreread'.alike hwell' hwell
  have hacyclic' := halike.acyclic hacyclic
  refine ⟨d', hd', fun options => ⟨⟨fun ⟨p, hp⟩ => ?_, fun ⟨p', hp'⟩ => ?_⟩, fun p p' hp hp' => ?_⟩⟩
  · obtain ⟨p', hp', -⟩ := Resolver.build_of_alike hd hd' halike hacyclic hp
    exact ⟨p', hp'⟩
  · obtain ⟨p, hp, -⟩ := Resolver.build_of_alike hd' hd halike' hacyclic' hp'
    exact ⟨p, hp⟩
  · obtain ⟨other, hother, hperm⟩ := Resolver.build_of_alike hd hd' halike hacyclic hp
    obtain rfl : p' = other := Except.ok.inj (hp'.symm.trans hother)
    exact hperm

def petShop (schemas : Assoc String Json) : Json :=
  .obj [("openapi", .str "3.0.0"), ("components", .obj [("schemas", .obj schemas)])]

/-- A pet, which refers to its owner, and the owner. -/
def petAndOwner : Assoc String Json := [
  ("Pet", .obj [("type", .str "object"), ("properties", .obj [
    ("owner", .obj [("$ref", .str "#/components/schemas/Owner")])])]),
  ("Owner", .obj [("type", .str "object"), ("properties", .obj [
    ("name", .obj [("type", .str "string")])])])]

def visit : Assoc String Json := [("Visit", .obj [("type", .str "object")])]

/-- The models of the two orders are listed in different orders as well. -/
theorem build_reordered_petShop :
    ∃ d d' p p', Document.ofJson (petShop (petAndOwner ++ visit)) = .ok d ∧
      Document.ofJson (petShop (visit ++ petAndOwner)) = .ok d' ∧
      build d {} = .ok p ∧ build d' {} = .ok p' ∧
      p.models.map ModelEntry.exportName = ["Owner", "Pet", "Visit"] ∧
      p'.models.map ModelEntry.exportName = ["Visit", "Owner", "Pet"] ∧
      p.models.Perm p'.models := by
  have hrun : (Document.ofJson (petShop (petAndOwner ++ visit)) >>= fun d => (fun p =>
      (p.models.map ModelEntry.exportName, p.types.cycles)) <$> build d {}) =
      .ok (["Owner", "Pet", "Visit"], []) := by decide +kernel
  have hrun' : (Document.ofJson (petShop (visit ++ petAndOwner)) >>= fun d => (fun p =>
      p.models.map ModelEntry.exportName) <$> build d {}) = .ok ["Visit", "Owner", "Pet"] := by
    decide +kernel
  obtain ⟨d, p, hd, hp, hholds⟩ := exists_of_run hrun
  obtain ⟨hnames, hcycles⟩ := Prod.mk.inj hholds
  obtain ⟨other, p', hd', hp', hnames'⟩ := exists_of_run hrun'
  have hpath : Document.schemasPath (petShop (petAndOwner ++ visit)) =
      ["components", "schemas"] := by decide
  have hreordered : Json.Reordered (Document.schemasPath (petShop (petAndOwner ++ visit)))
      (petShop (petAndOwner ++ visit)) (petShop (visit ++ petAndOwner)) := by
    rw [hpath]
    refine @Json.Reordered.under [("openapi", .str "3.0.0")] [] _ _ _ _ (by decide) ?_
    refine @Json.Reordered.under [] [] _ _ _ _ (by decide) ?_
    exact .here (by decide) List.perm_append_comm
  obtain ⟨r, hr, htypes, -⟩ := Resolver.finished_of_build hd hp
  have huncut : r.cycles = [] := by
    rw [htypes] at hcycles
    exact hcycles
  obtain ⟨d', hread, hbuilt⟩ := build_reordered hreordered hd (hr.acyclic huncut)
  obtain rfl : other = d' := Except.ok.inj (hd'.symm.trans hread)
  exact ⟨d, other, p, p', hd, hd', hp, hp', hnames, hnames', (hbuilt {}).2 p p' hp hp'⟩

end Projection

end TypedClient

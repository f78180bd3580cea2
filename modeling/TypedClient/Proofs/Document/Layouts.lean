import TypedClient.Proofs.Document.Reading
import TypedClient.Proofs.Document.Reordered

/-! Documents whose named schemas stand in another order, in the newer layout. References lead to
the same but for that order, and of what they lead to only members are read that are the same. -/

namespace TypedClient

namespace Document

open Json

variable {root root' v v' : Json} {shared shared' own own' : List Json}

/-- No member that leads to named schemas is an operation. -/
theorem ofName?_of_mem_layoutKeys {key : String} (h : key ∈ layoutKeys) :
    HttpMethod.ofName? key = none := by
  have hall : ∀ key ∈ layoutKeys, HttpMethod.ofName? key = none := by decide
  exact hall key h

theorem mergeParameters_alike {R : Json → Json → Prop}
    (hkey : ∀ v v', R v v' → parameterKey v = parameterKey v')
    (h : List.Forall₂ (fun v v' => ExceptAlike R (Pointer.follow root v) (Pointer.follow root' v'))
      (shared ++ own) (shared' ++ own')) :
    ExceptAlike (Assoc.Alike R) (mergeParameters root shared own)
      (mergeParameters root' shared' own') := by
  refine foldlM_alike h .nil fun hm hv => hv.map fun {u u'} hu => ?_
  rw [hkey u u' hu]
  exact Assoc.Alike.put hm _ hu

/-! ### The newer layout -/

theorem ParameterAlike.of_kin (h : Kin v v') : ParameterAlike v v' where
  name := h.getString? (by decide)
  place := h.getString? (by decide)
  schema := by
    rw [schemaOf?, schemaOf?, h.get?_eq (by decide), h.getObject? (by decide)]
    exact rel_refl .refl _

theorem BodyAlike.of_kin (h : Kin v v') : BodyAlike v v' := by
  unfold BodyAlike
  rw [h.getObject? (by decide)]
  exact List.forall₂_same.2 fun _ _ => ⟨rfl, .refl _⟩

theorem parameterKey_kin (h : Kin v v') : parameterKey v = parameterKey v' := by
  rw [parameterKey, parameterKey, h.getString? (by decide), h.getString? (by decide)]

theorem parametersOf_kin (h : Kin v v') : parametersOf v = parametersOf v' := by
  rw [parametersOf, parametersOf, h.getArray? (by decide)]

theorem mergeParameters_kin (h : Kin root root') (shared own : List Json) :
    ExceptAlike (Assoc.Alike Kin) (mergeParameters root shared own)
      (mergeParameters root' shared own) :=
  mergeParameters_alike (fun _ _ => parameterKey_kin)
    (List.forall₂_same.2 fun v _ => Pointer.follow_kin h (.refl v))

section Newer

variable (h : Kin root root')

include h

theorem follow_bodyAlike (v : Option Json) : Option.Rel
    (fun v v' => ExceptAlike BodyAlike (Pointer.follow root v) (Pointer.follow root' v')) v v :=
  rel_refl (fun v => (Pointer.follow_kin h (.refl v)).imp fun _ _ => .of_kin) v

theorem memberAlike_self (shared : List Json) (m : String × Json) :
    MemberAlike root root' shared shared m m := by
  obtain ⟨key, v⟩ := m
  cases v with
  | obj fields =>
    refine .operation key rfl ⟨?_, follow_bodyAlike h _, follow_bodyAlike h _, rfl⟩
    exact (mergeParameters_kin h shared _).imp fun _ _ hm => hm.imp fun _ _ => .of_kin
  | null | bool | num | str | arr => exact .other key rfl

theorem pathItemAlike_of_kin (hv : Kin v v') : PathItemAlike root root' v v' := by
  unfold PathItemAlike
  rw [parametersOf_kin hv]
  have hself := memberAlike_self h (parametersOf v')
  rcases hv with rfl | ⟨path, hpath, hv⟩
  · exact covers_of_perm (.refl _) hself
  · cases hv with
    | here hkeys hperm => exact covers_of_perm hperm hself
    | @under before after key path u u' hfirst hv =>
      have hkey := ofName?_of_mem_layoutKeys (hpath List.mem_cons_self)
      refine covers_of_forall₂ (List.rel_append (List.forall₂_same.2 fun m _ => hself m) ?_)
      exact .cons (.unnamed hkey u u') (List.forall₂_same.2 fun m _ => hself m)

theorem pathsAlike_of_kin : PathsAlike root root' := by
  unfold PathsAlike
  rw [h.getObject? (by decide)]
  exact List.forall₂_same.2 fun p _ =>
    ⟨rfl, (Pointer.follow_kin h (.refl p.2)).imp fun _ _ => pathItemAlike_of_kin h⟩

end Newer

theorem schemasOf_of_reordered (h : Reordered ["components", "schemas"] root root') :
    (schemasOf root).Perm (schemasOf root') ∧ (Assoc.keys (schemasOf root)).Nodup := by
  obtain ⟨components, components', hc, hc', h⟩ := h.get?_under
  obtain ⟨schemas, schemas', hs, hs', h⟩ := h.get?_under
  cases h with
  | here hkeys hperm =>
    unfold schemasOf Json.getObject?
    rw [hc, hc', Option.bind_some, Option.bind_some, hs, hs']
    exact ⟨hperm, hkeys⟩

/-- The named schemas of a document in the newer layout, in another order. -/
theorem layoutAlike_of_reordered (h : Reordered ["components", "schemas"] root root') :
    LayoutAlike root root' where
  paths := pathsAlike_of_kin (.inr ⟨_, by decide, h⟩)
  schemas := (schemasOf_of_reordered h).1
  distinct := (schemasOf_of_reordered h).2

end Document

end TypedClient

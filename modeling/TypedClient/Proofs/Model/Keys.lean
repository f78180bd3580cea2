import TypedClient.Proofs.Model.References

/-! The keys of models. A model is filed under the name of the schema that it was made for, read as
the name of a type: the scope and the name without its arguments. What is read are characters of the
schema's name. -/

namespace TypedClient

namespace TypeName

/-- The key of the file of a type with this name: its name within its scope. -/
def fileKey (t : TypeName) : String :=
  if t.scope = "" then t.name else t.scope ++ "." ++ t.name

/-! ### Parts of a name -/

theorem eq_of_cutDot {depth : Int} {cs before after : List Char}
    (h : cutDot depth cs = some (before, after)) : cs = before ++ '.' :: after := by
  induction cs generalizing depth before with
  | nil => cases h
  | cons c cs ih =>
    rw [cutDot] at h
    split at h
    · next hdot =>
      cases h
      simp only [Bool.and_eq_true, decide_eq_true_eq] at hdot
      rw [hdot.1]
      rfl
    · obtain ⟨⟨front, rest⟩, hcut, heq⟩ := Option.map_eq_some_iff.1 h
      cases heq
      rw [ih hcut]
      rfl

/-- A name with a scope is the scope, a dot and the name in it. -/
theorem eq_or_eq_splitScope (cs : List Char) :
    splitScope cs = ([], cs) ∨ cs = (splitScope cs).1 ++ '.' :: (splitScope cs).2 := by
  unfold splitScope
  cases hcut : cutDot 0 cs.reverse with
  | none => exact .inl rfl
  | some parts =>
    obtain ⟨before, after⟩ := parts
    right
    have hreversed := congrArg List.reverse (eq_of_cutDot hcut)
    simpa using hreversed

theorem subset_of_splitScope (cs : List Char) :
    (splitScope cs).1 ⊆ cs ∧ (splitScope cs).2 ⊆ cs := by
  rcases eq_or_eq_splitScope cs with h | h
  · rw [h]
    exact ⟨List.nil_subset cs, List.Subset.refl cs⟩
  · generalize splitScope cs = parts at h
    subst h
    exact ⟨List.subset_append_left .., fun c hc =>
      List.mem_append_right _ (List.mem_cons_of_mem '.' hc)⟩

theorem headOf_subset (cs : List Char) : headOf cs ⊆ cs := by
  unfold headOf
  split
  · exact List.Subset.refl cs
  · exact (List.takeWhile_sublist _).subset

/-- The file of a type is called by dots and characters of the type's name. -/
theorem mem_of_mem_fileKey {name : String} {parsed : TypeName} (h : parse name = .ok parsed)
    {c : Char} (hc : c ∈ parsed.fileKey.toList) : c = '.' ∨ c ∈ name.toList := by
  obtain ⟨hscope, hlast⟩ := subset_of_splitScope name.toList
  have hparts : parsed.scope.toList ⊆ name.toList ∧ parsed.name.toList ⊆ name.toList := by
    obtain ⟨hscopeText, hname, -⟩ := parts_of_parse h
    rw [hscopeText, hname, String.toList_ofList, String.toList_ofList]
    exact ⟨hscope, fun c hc => hlast (headOf_subset _ hc)⟩
  unfold fileKey at hc
  split at hc
  · exact .inr (hparts.2 hc)
  · rw [String.toList_append, String.toList_append, List.mem_append, List.mem_append] at hc
    rcases hc with (hc | hc) | hc
    · exact .inr (hparts.1 hc)
    · exact .inl (List.mem_singleton.1 hc)
    · exact .inr (hparts.2 hc)

end TypeName

namespace Projection

open Model Resolver

/-- A model is filed under the name of a schema of the document. -/
theorem key_of_model [MediaType.Reading] [Text.Transliteration] {root : Json} {d : Document}
    (h : Document.ofJson root = .ok d)
    {options : Client.Options} {p : Projection} (hp : build d options = .ok p) {m : ModelEntry}
    (hm : m ∈ p.models) :
    ∃ name ∈ Assoc.keys d.schemas, ∃ parsed, TypeName.parse name = .ok parsed ∧
      m.key = parsed.fileKey := by
  obtain ⟨r, hr, -, hmodels⟩ := finished_of_build h hp
  rw [hmodels] at hm
  obtain ⟨t, ht, hmem, rfl⟩ := rooted_of_mem_project hr hm
  have hmodel := ((mem_modelTypes hr.distinct).1 hmem).2
  obtain ⟨name, parsed, hregistered, hparsed, hname, hscope, -⟩ :=
    ownName_of_isModel hr.faithful hr.types.graph ht hmodel
  obtain ⟨node, hdeclared, -⟩ := hr.faithful.declared hregistered
  refine ⟨name, List.mem_map.2 ⟨_, Assoc.mem_of_get? hdeclared, rfl⟩, parsed, hparsed, ?_⟩
  show (entry r.graph t).key = parsed.fileKey
  rw [entry_key, TypeInfo.fileKey, TypeName.fileKey, hname, hscope]

end Projection

end TypedClient

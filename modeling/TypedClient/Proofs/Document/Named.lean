import TypedClient.Proofs.Document.Upgraded
import TypedClient.Proofs.Schema.Grown
import TypedClient.Proofs.Schema.Told

/-! The named schemas of a document, as the layout that it declares has them. A document that has
been read holds a node for each of them, under its name and in their order. -/

namespace TypedClient

/-- What adds whole trees leaves the nodes where they are. -/
theorem Building.Plants.keeps {α : Type} {m : Building α} {after : α → List NodeId}
    (h : Plants [] m after) : Keeps m := by
  intro s t x ho
  have hrun := h s s .none
  rw [ho] at hrun
  exact hrun.kept

namespace Document

open Building

variable {root : Json} {d : Document}

theorem keeps_readSchemas (members : List (String × Json)) : Keeps (readSchemas members) :=
  Plants.keeps (plants_readSchemas members [])

theorem holds_of_readSchemas {a : Arena} {members : List (String × Json)}
    {schemas : Assoc String NodeId} (h : Gave a (readSchemas members) schemas) :
    Assoc.Alike a.Holds members schemas := by
  induction members generalizing schemas with
  | nil =>
    rw [← h.of_pure]
    exact .nil
  | cons member rest ih =>
    obtain ⟨name, v⟩ := member
    rw [readSchemas] at h
    obtain ⟨id, hid, h⟩ := h.bind fun _ =>
      (keeps_readSchemas rest).bind fun _ => keeps_pure _
    obtain ⟨schemas, hschemas, h⟩ := h.bind fun _ => keeps_pure _
    rw [← h.of_pure]
    exact .cons ⟨rfl, _, hid⟩ (ih hschemas)

/-- Reading paths leaves the nodes of schemas as they are. -/
theorem keeps_readPaths (root : Json) : Keeps (readPaths root) :=
  Plants.keeps (plants_readPaths root [])

theorem holds_of_readLayout {version : Version} (h : readLayout version root = .ok d) :
    Assoc.Alike d.arena.Holds (schemasOf root) d.schemas := by
  obtain ⟨t, hschemas, hpaths⟩ := steps_of_readLayout h
  exact holds_of_readSchemas ⟨_, t, hschemas, keeps_readPaths root _ _ _ hpaths⟩

/-- The named schemas of a document, in the layout that it declares. -/
def namedSchemas (root : Json) : Assoc String Json :=
  if (root.get? "swagger").isSome then (root.getObject? "definitions").getD []
  else schemasOf root

theorem schemasOf_upgrade {upgraded : Json} (h : Upgrade.upgrade root = .ok upgraded) :
    schemasOf upgraded = (root.getObject? "definitions").getD [] := by
  obtain ⟨paths, -, h⟩ := except_bind_eq_ok.1 h
  cases h
  show (((root.get? "definitions").getD (.obj [])).asObject?).getD [] =
    ((root.get? "definitions").bind Json.asObject?).getD []
  cases root.get? "definitions" <;> rfl

/-- What has been read of a document holds its named schemas. -/
theorem holds_of_ofJson (h : ofJson root = .ok d) :
    Assoc.Alike d.arena.Holds (namedSchemas root) d.schemas := by
  unfold ofJson at h
  unfold namedSchemas
  split at h
  · next hold =>
    rw [if_pos hold]
    split at h
    · next upgraded hupgraded =>
      rw [← schemasOf_upgrade hupgraded]
      exact holds_of_readLayout h
    · cases h
  · next hnew =>
    rw [if_neg hnew]
    split at h
    · exact holds_of_readLayout h
    · cases h

/-- A named schema has a node under its name. -/
theorem holds_named (h : ofJson root = .ok d) {name : String} {v : Json}
    (hv : Assoc.get? (namedSchemas root) name = some v) :
    ∃ id, Assoc.get? d.schemas name = some id ∧ d.arena.Holds v id := by
  have hrel := (holds_of_ofJson h).get? name
  rw [hv] at hrel
  cases hid : Assoc.get? d.schemas name with
  | none =>
    rw [hid] at hrel
    cases hrel
  | some id =>
    rw [hid] at hrel
    cases hrel with
    | some hholds => exact ⟨id, rfl, hholds⟩

end Document

end TypedClient

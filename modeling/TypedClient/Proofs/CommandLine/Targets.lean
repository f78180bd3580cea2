import Mathlib.Data.List.Forall2
import TypedClient.CommandLine.Targets
import TypedClient.Host.Tree
import TypedClient.Proofs.Outcome

/-! What a command says and what the settings of its targets are. Main statement: the settings of
every target are those that the configuration writes down, or the usual ones for a single document,
with everything that the command says in their place; but for a configuration it does not count
which templates the command names. -/

namespace TypedClient

variable {α β ε ε' : Type} {w w' : Machine} {directory : String}

/-! ### Looking at files -/

/-- A computation that leaves the machine as it is. -/
def Looks (x : StateM Machine α) : Prop := ∀ w, (x.run w).2 = w

theorem looks_pure (a : α) : Looks (pure a : StateM Machine α) := fun _ => rfl

theorem looks_readText (path : String) : Looks (Host.readText path : StateM Machine _) :=
  fun _ => rfl

theorem Looks.run_bind {x : StateM Machine α} (hx : Looks x) (f : α → StateM Machine β)
    (w : Machine) : (x >>= f).run w = (f (x.run w).1).run w := by
  show (f (x.run w).1).run (x.run w).2 = _
  rw [hx w]

theorem Looks.bind {x : StateM Machine α} {f : α → StateM Machine β} (hx : Looks x)
    (hf : ∀ a, Looks (f a)) : Looks (x >>= f) := by
  intro w
  rw [hx.run_bind]
  exact hf _ w

/-- What a sequence gives is what its second part gives for what its first part gives. -/
theorem Looks.of_bind {x : StateM Machine α} {f : α → StateM Machine β} {b : β} (hx : Looks x)
    (h : (x >>= f).run w = (b, w')) : ∃ a, x.run w = (a, w) ∧ (f a).run w = (b, w') := by
  rw [hx.run_bind] at h
  exact ⟨_, Prod.ext rfl (hx w), h⟩

/-- A second part that only passes on what went wrong in the first one. -/
theorem Looks.bind_ok {x : StateM Machine (Except ε α)}
    {f : Except ε α → StateM Machine (Except ε' β)} (hx : Looks x)
    (hpasses : ∀ e, ∃ e', f (.error e) = pure (.error e')) (hf : ∀ a, Looks (f (.ok a))) :
    Looks (x >>= f) := by
  refine hx.bind fun r => ?_
  cases r with
  | error e =>
    obtain ⟨e', he'⟩ := hpasses e
    rw [he']
    exact looks_pure _
  | ok a => exact hf a

/-- What such a sequence gives comes from what its first part gave. -/
theorem Looks.of_bind_ok {x : StateM Machine (Except ε α)}
    {f : Except ε α → StateM Machine (Except ε' β)} {b : β} (hx : Looks x)
    (h : (x >>= f).run w = (.ok b, w'))
    (hpasses : ∀ e, ∃ e', f (.error e) = pure (.error e')) :
    ∃ a, x.run w = (.ok a, w) ∧ (f (.ok a)).run w = (.ok b, w') := by
  obtain ⟨r, hr, h⟩ := hx.of_bind h
  cases r with
  | error e =>
    obtain ⟨e', he'⟩ := hpasses e
    rw [he'] at h
    cases h
  | ok a => exact ⟨a, hr, h⟩

/-! ### Templates -/

/-- The text of a template: of the file that is given, or else what is written, or else of the file
that is named there, whose path is taken from a directory. -/
def TemplateIs (w : Machine) (directory : String) (given written file text : Option String) :
    Prop :=
  match given, written, file with
  | some path, _, _ => ∃ t, w.tree.read (w.absolute path) = .ok t ∧ text = some t
  | none, some t, _ => text = some t
  | none, none, some path =>
    ∃ t, w.tree.read (w.absolute (Path.join directory path)) = .ok t ∧ text = some t
  | none, none, none => text = none

namespace Config

theorem looks_readTemplate (directory : String) (written file : Option String) :
    Looks (readTemplate directory written file) := by
  unfold readTemplate
  split
  · exact looks_pure _
  · exact looks_pure _
  · exact (looks_readText _).bind_ok (fun _ => ⟨_, rfl⟩) fun _ => looks_pure _

theorem templateIs_of_readTemplate {written file text : Option String}
    (h : (readTemplate directory written file : StateM Machine _).run w = (.ok text, w')) :
    TemplateIs w directory none written file text := by
  match written, file with
  | some t, file =>
    cases h
    rfl
  | none, none =>
    cases h
    rfl
  | none, some path =>
    obtain ⟨t, hread, h⟩ := (looks_readText _).of_bind_ok h fun _ => ⟨_, rfl⟩
    cases h
    exact ⟨t, congrArg Prod.fst hread, rfl⟩

/-! ### Outputs -/

/-- The options of an output that is on, its template read. -/
def readOutput {ο ρ : Type} (directory : String) (written file : ο → Option String)
    (make : ο → Option String → ρ) (options : Option ο) :
    StateM Machine (Except Failure (Option ρ)) :=
  match options with
  | none => pure (.ok none)
  | some o => do
    let template ← readTemplate directory (written o) (file o)
    pure (template.map fun template => some (make o template))

theorem looks_readOutput {ο ρ : Type} (directory : String) (written file : ο → Option String)
    (make : ο → Option String → ρ) (options : Option ο) :
    Looks (readOutput directory written file make options) := by
  cases options with
  | none => exact looks_pure _
  | some o => exact (looks_readTemplate _ _ _).bind fun _ => looks_pure _

/-- The options are made of what is written and of the template. -/
def Made {ο ρ : Type} (w : Machine) (directory : String) (given : Option String)
    (written file : ο → Option String) (make : ο → Option String → ρ) (o : ο) (r : ρ) : Prop :=
  ∃ text, TemplateIs w directory given (written o) (file o) text ∧ r = make o text

theorem made_of_readOutput {ο ρ : Type} {written file : ο → Option String}
    {make : ο → Option String → ρ} {options : Option ο} {result : Option ρ}
    (h : (readOutput directory written file make options).run w = (.ok result, w')) :
    Option.Rel (Made w directory none written file make) options result := by
  cases options with
  | none =>
    cases h
    exact .none
  | some o =>
    obtain ⟨text, hread, h⟩ := (looks_readTemplate _ _ _).of_bind_ok h fun _ => ⟨_, rfl⟩
    cases h
    exact .some ⟨text, templateIs_of_readTemplate hread, rfl⟩

abbrev readModels (directory : String) (t : Target) :=
  readOutput directory ModelFileOptions.template ModelFileOptions.templateFile modelOptions
    t.outputs.models.options?

abbrev readClient (directory : String) (t : Target) :=
  readOutput directory ClientFileOptions.template ClientFileOptions.templateFile clientOptions
    t.outputs.client.options?

/-- The settings of a target with the options of its outputs. -/
def settingsWith (t : Target) (models : Option ModelOptions) (client : Option ClientOptions) :
    TargetSettings :=
  { source := DocumentSource.ofText t.url
    basePath := t.basePath
    clean := t.clean
    models, client }

theorem settings_eq (directory : String) (t : Target) :
    (settings directory t : StateM Machine _) = (do
      match ← readModels directory t with
      | .error e => pure (.error e)
      | .ok models =>
        let client ← readClient directory t
        pure (client.map (settingsWith t models))) := by
  unfold settings readModels readClient readOutput
  cases t.outputs.models.options? <;> cases t.outputs.client.options? <;> rfl

/-! ### Settings before a command counts -/

/-- The settings are those that a target writes down, with templates from given files if there are
any. -/
def Stated (w : Machine) (directory : String) (modelTemplate clientTemplate : Option String)
    (t : Target) (s : TargetSettings) : Prop :=
  ∃ models client, s = settingsWith t models client ∧
    Option.Rel (Made w directory modelTemplate ModelFileOptions.template
      ModelFileOptions.templateFile modelOptions) t.outputs.models.options? models ∧
    Option.Rel (Made w directory clientTemplate ClientFileOptions.template
      ClientFileOptions.templateFile clientOptions) t.outputs.client.options? client

theorem looks_settings (directory : String) (t : Target) : Looks (settings directory t) := by
  rw [settings_eq]
  exact (looks_readOutput _ _ _ _ _).bind_ok (fun _ => ⟨_, rfl⟩) fun _ =>
    (looks_readOutput _ _ _ _ _).bind fun _ => looks_pure _

theorem stated_of_settings {t : Target} {s : TargetSettings}
    (h : (settings directory t : StateM Machine _).run w = (.ok s, w')) :
    Stated w directory none none t s := by
  rw [settings_eq] at h
  obtain ⟨models, hmodels, h⟩ := (looks_readOutput _ _ _ _ _).of_bind_ok h fun _ => ⟨_, rfl⟩
  obtain ⟨client, hclient, h⟩ := (looks_readOutput _ _ _ _ _).of_bind_ok h fun _ => ⟨_, rfl⟩
  have hs : settingsWith t models client = s := Except.ok.inj (congrArg Prod.fst h)
  exact ⟨models, client, hs.symm, made_of_readOutput hmodels, made_of_readOutput hclient⟩

theorem looks_allSettings (directory : String) (targets : List Target) :
    Looks (allSettings directory targets) := by
  induction targets with
  | nil => exact looks_pure _
  | cons t targets ih =>
    exact (looks_settings directory t).bind_ok (fun _ => ⟨_, rfl⟩) fun _ =>
      ih.bind fun _ => looks_pure _

theorem stated_of_allSettings {targets : List Target} {all : List TargetSettings}
    (h : (allSettings directory targets : StateM Machine _).run w = (.ok all, w')) :
    List.Forall₂ (Stated w directory none none) targets all := by
  induction targets generalizing all w' with
  | nil =>
    cases h
    exact .nil
  | cons t targets ih =>
    obtain ⟨s, hs, h⟩ := (looks_settings directory t).of_bind_ok h fun _ => ⟨_, rfl⟩
    obtain ⟨rest, hrest, h⟩ :=
      (looks_allSettings directory targets).of_bind_ok h fun _ => ⟨_, rfl⟩
    cases h
    exact .cons (stated_of_settings hs) (ih hrest)

theorem looks_load (path : String) : Looks (load path) :=
  (looks_readText _).bind_ok (fun _ => ⟨_, rfl⟩) fun _ => looks_pure _

end Config

namespace CommandLine.GenerateCommand

open Config

variable {c : GenerateCommand}

/-- The targets as they are written: those of the configuration, or a single one that has nothing
but its document and where it goes. -/
def asked (c : GenerateCommand) : StateM Machine (Except Failure (List Target)) :=
  match c.origin with
  | .configuration path => Config.load path
  | .document input basePath => pure (.ok [{ url := input, basePath }])

/-- The directory that the paths in a configuration are taken from. -/
def configDirectory (c : GenerateCommand) : String :=
  match c.origin with
  | .configuration path => directoryOf path
  | .document .. => ""

/-- What counts of a command: with a configuration it does not count which templates are named. -/
def heeded (c : GenerateCommand) : GenerateCommand :=
  match c.origin with
  | .configuration _ => { c with modelTemplate := none, clientTemplate := none }
  | .document .. => c

theorem looks_readTemplate (path : Option String) :
    Looks (readTemplate path : StateM Machine _) := by
  cases path with
  | none => exact looks_pure _
  | some path => exact (looks_readText _).bind_ok (fun _ => ⟨_, rfl⟩) fun _ => looks_pure _

theorem templateIs_of_readTemplate {path text : Option String}
    (h : (readTemplate path : StateM Machine _).run w = (.ok text, w')) :
    TemplateIs w directory path none none text := by
  cases path with
  | none =>
    cases h
    rfl
  | some path =>
    obtain ⟨t, hread, h⟩ := (looks_readText _).of_bind_ok h fun _ => ⟨_, rfl⟩
    cases h
    exact ⟨t, congrArg Prod.fst hread, rfl⟩

theorem looks_single (c : GenerateCommand) (input basePath : String) :
    Looks (single c input basePath) :=
  (looks_readTemplate _).bind_ok (fun _ => ⟨_, rfl⟩) fun _ =>
    (looks_readTemplate _).bind_ok (fun _ => ⟨_, rfl⟩) fun _ => looks_pure _

theorem stated_of_single {input basePath : String} {s : TargetSettings}
    (h : (single c input basePath : StateM Machine _).run w = (.ok s, w')) :
    Stated w directory c.modelTemplate c.clientTemplate { url := input, basePath } s := by
  obtain ⟨models, hmodels, h⟩ := (looks_readTemplate _).of_bind_ok h fun _ => ⟨_, rfl⟩
  obtain ⟨client, hclient, h⟩ := (looks_readTemplate _).of_bind_ok h fun _ => ⟨_, rfl⟩
  have hs : settingsWith { url := input, basePath } (some { transform := models.map .template })
      (some { transform := client.map .template }) = s := Except.ok.inj (congrArg Prod.fst h)
  exact ⟨_, _, hs.symm, .some ⟨_, templateIs_of_readTemplate hmodels, rfl⟩,
    .some ⟨_, templateIs_of_readTemplate hclient, rfl⟩⟩

theorem looks_configured (path : String) : Looks (configured path) :=
  (looks_load path).bind_ok (fun _ => ⟨_, rfl⟩) fun _ => looks_allSettings _ _

/-- The settings of all targets before what the command says counts. -/
def before (c : GenerateCommand) : StateM Machine (Except CommandFailure (List TargetSettings)) :=
  match c.origin with
  | .configuration path => do
    pure ((← configured path).mapError fun e => .run (.document e))
  | .document input basePath => do
    match ← single c input basePath with
    | .ok s => pure (.ok [s])
    | .error e => pure (.error (.run (.file e)))

theorem targets_eq (c : GenerateCommand) :
    (c.targets : StateM Machine _) = (do
      let settings ← c.before
      pure (match settings with
        | .ok [] => .error .noTargets
        | .ok all => .ok (all.map c.override)
        | .error e => .error e)) := by
  unfold targets before
  cases c.origin with
  | configuration path => rfl
  | document input basePath =>
    dsimp only
    rw [bind_assoc]
    exact bind_congr fun s => by cases s <;> rfl

theorem looks_before (c : GenerateCommand) : Looks c.before := by
  unfold before
  split
  · exact (looks_configured _).bind fun _ => looks_pure _
  · exact (looks_single _ _ _).bind_ok (fun _ => ⟨_, rfl⟩) fun _ => looks_pure _

theorem looks_targets (c : GenerateCommand) : Looks (c.targets : StateM Machine _) := by
  rw [targets_eq]
  exact (looks_before c).bind fun _ => looks_pure _

/-- A command that has targets has changed the settings of at least one. -/
theorem before_of_targets {all : List TargetSettings}
    (h : (c.targets : StateM Machine _).run w = (.ok all, w')) :
    ∃ settings, c.before.run w = (.ok settings, w) ∧ settings ≠ [] ∧
      all = settings.map c.override := by
  rw [targets_eq] at h
  obtain ⟨settings, hsettings, h⟩ := (looks_before c).of_bind h
  match settings with
  | .error e => cases h
  | .ok [] => cases h
  | .ok (s :: rest) =>
    cases h
    exact ⟨s :: rest, hsettings, List.cons_ne_nil s rest, rfl⟩

theorem stated_of_before {settings : List TargetSettings}
    (h : c.before.run w = (.ok settings, w')) :
    ∃ targets, c.asked.run w = (.ok targets, w) ∧
      List.Forall₂ (Stated w c.configDirectory c.heeded.modelTemplate c.heeded.clientTemplate)
        targets settings := by
  unfold before at h
  unfold asked configDirectory heeded
  cases horigin : c.origin with
  | configuration path =>
    simp only [horigin] at h
    obtain ⟨all, hread, h⟩ := (looks_configured path).of_bind_ok h fun _ => ⟨_, rfl⟩
    cases h
    obtain ⟨targets, hload, hread⟩ := (looks_load path).of_bind_ok hread fun _ => ⟨_, rfl⟩
    exact ⟨targets, hload, stated_of_allSettings hread⟩
  | document input basePath =>
    simp only [horigin] at h
    obtain ⟨s, hread, h⟩ := (looks_single c input basePath).of_bind_ok h fun _ => ⟨_, rfl⟩
    cases h
    exact ⟨[{ url := input, basePath }], rfl, .cons (stated_of_single hread) .nil⟩

/-! ### What the command says -/

/-- The options of models are those that are written, with what the command says in their place. -/
structure HeedsForModels (w : Machine) (c : GenerateCommand) (o : ModelFileOptions)
    (r : ModelOptions) : Prop where
  place : r.place = o.output.map .directory
  transform : ∃ text, r.transform = text.map .template ∧
    TemplateIs w c.configDirectory c.modelTemplate o.template o.templateFile text
  index : r.index = if c.noIndex then .none else indexFile o.index
  format : r.format = if c.noFormat then false else o.format.getD true
  extension : r.extension = if c.extension.isSome then c.extension else o.extension
  hook : r.hook = none

/-- The options of a client are those that are written, with what the command says in their
place. -/
structure HeedsForClient (w : Machine) (c : GenerateCommand) (o : ClientFileOptions)
    (r : ClientOptions) : Prop where
  place : r.place = o.output.map .directory
  transform : ∃ text, r.transform = text.map .template ∧
    TemplateIs w c.configDirectory c.clientTemplate o.template o.templateFile text
  format : r.format = if c.noFormat then false else o.format.getD true
  extension : r.extension = if c.extension.isSome then c.extension else o.extension
  responseType : r.responseType = c.responseType.getD (o.responseType.getD .json)
  hook : r.hook = none

/-- The settings are those that a target writes down, with everything that the command says in its
place. -/
structure Heeds (w : Machine) (c : GenerateCommand) (t : Target) (s : TargetSettings) : Prop where
  source : s.source = .ofText t.url
  basePath : s.basePath = t.basePath
  clean : s.clean = if c.noClean then false else t.clean
  models : if c.noModels then s.models = none
    else Option.Rel (HeedsForModels w c) t.outputs.models.options? s.models
  client : if c.noClient then s.client = none
    else Option.Rel (HeedsForClient w c) t.outputs.client.options? s.client

theorem heeds_overrideModels {o : ModelFileOptions} {r : ModelOptions}
    (h : Made w c.configDirectory c.modelTemplate ModelFileOptions.template
      ModelFileOptions.templateFile modelOptions o r) :
    HeedsForModels w c o (c.overrideModels r) := by
  obtain ⟨text, htext, rfl⟩ := h
  refine ⟨rfl, ⟨text, rfl, htext⟩, rfl, ?_, ?_, rfl⟩
  · cases hformat : c.noFormat <;> simp [overrideModels, modelOptions, hformat]
  · cases hextension : c.extension <;> simp [overrideModels, modelOptions, hextension]

theorem heeds_overrideClient {o : ClientFileOptions} {r : ClientOptions}
    (h : Made w c.configDirectory c.clientTemplate ClientFileOptions.template
      ClientFileOptions.templateFile clientOptions o r) :
    HeedsForClient w c o (c.overrideClient r) := by
  obtain ⟨text, htext, rfl⟩ := h
  refine ⟨rfl, ⟨text, rfl, htext⟩, ?_, ?_, rfl, rfl⟩
  · cases hformat : c.noFormat <;> simp [overrideClient, clientOptions, hformat]
  · cases hextension : c.extension <;> simp [overrideClient, clientOptions, hextension]

/-- An output that is not switched off is changed by what the command says. -/
theorem rel_override {ο ρ : Type} {R S : ο → ρ → Prop} {f : ρ → ρ} {options : Option ο}
    {result : Option ρ} (off : Bool) (h : Option.Rel R options result)
    (hf : ∀ {o r}, R o r → S o (f r)) :
    if off then (if off then none else result.map f) = none
      else Option.Rel S options (if off then none else result.map f) := by
  cases off with
  | true => rfl
  | false =>
    cases h with
    | none => exact .none
    | some h => exact .some (hf h)

theorem heeds_override {t : Target} {s : TargetSettings}
    (h : Stated w c.configDirectory c.modelTemplate c.clientTemplate t s) :
    Heeds w c t (c.override s) := by
  obtain ⟨models, client, rfl, hmodels, hclient⟩ := h
  constructor
  case models => exact rel_override c.noModels hmodels heeds_overrideModels
  case client => exact rel_override c.noClient hclient heeds_overrideClient
  all_goals simp only [override, settingsWith]
  cases hclean : c.noClean <;> simp

theorem configDirectory_heeded (c : GenerateCommand) :
    c.heeded.configDirectory = c.configDirectory := by
  unfold heeded
  split
  · next horigin => unfold configDirectory; rw [horigin]
  · rfl

theorem override_heeded (c : GenerateCommand) : c.heeded.override = c.override := by
  unfold heeded
  split <;> rfl

/-- **The settings of every target are those that are written for it, with everything that the
command says in its place, except that with a configuration it makes no difference which templates
the command names.** -/
theorem settings_heed {all : List TargetSettings}
    (h : (c.targets : StateM Machine _).run w = (.ok all, w')) :
    (∃ targets, c.asked.run w = (.ok targets, w) ∧ all ≠ [] ∧
      List.Forall₂ (Heeds w c.heeded) targets all) ∧
    ∀ path, c.origin = .configuration path → ∀ modelTemplate clientTemplate,
      ({ c with modelTemplate, clientTemplate }.targets : StateM Machine _).run w =
        (.ok all, w') := by
  constructor
  · obtain ⟨settings, hsettings, hne, rfl⟩ := before_of_targets h
    obtain ⟨targets, hasked, hstated⟩ := stated_of_before hsettings
    refine ⟨targets, hasked, mt List.map_eq_nil_iff.1 hne, ?_⟩
    rw [← override_heeded, List.forall₂_map_right_iff]
    rw [← configDirectory_heeded] at hstated
    exact hstated.imp fun _ _ => heeds_override
  · intro path horigin modelTemplate clientTemplate
    rw [← h]
    unfold targets
    rw [horigin]
    rfl

/-- A configuration of two targets, the second one without a client. -/
def shelfText : String :=
  "\x7b\"apiDocs\":[\x7b\"url\":\"a\",\"basePath\":\"a\"\x7d," ++
  "\x7b\"url\":\"b\",\"basePath\":\"b\",\"template\":\x7b\"api\":false\x7d\x7d]\x7d"

def shelf : Machine :=
  { tree := { entries := [(["api.config.json"], .file shelfText), (["m.jinja"], .file "M")] } }

/-- Two targets that a command leaves without an index, and with another extension. -/
def tidied : GenerateCommand :=
  { origin := .configuration "/api.config.json", noIndex := true, extension := some "mts" }

theorem settings_heed_tidied :
    ∃ all, (tidied.targets : StateM Machine _).run shelf = (.ok all, shelf) ∧ all.length = 2 ∧
      ∃ targets, tidied.asked.run shelf = (.ok targets, shelf) ∧
        List.Forall₂ (Heeds shelf tidied) targets all := by
  have hrun : List.length <$> ((tidied.targets : StateM Machine _).run shelf).1 = .ok 2 := by
    decide +kernel
  obtain ⟨all, hall, hlength⟩ := except_map_eq_ok.1 hrun
  have hsettings : (tidied.targets : StateM Machine _).run shelf = (.ok all, shelf) :=
    Prod.ext hall (looks_targets tidied shelf)
  obtain ⟨⟨targets, hasked, -, hheeded⟩, -⟩ := settings_heed hsettings
  exact ⟨all, hsettings, hlength, targets, hasked, hheeded⟩

/-- A template that is named for the models of a configuration. -/
def labelled : GenerateCommand :=
  { origin := .configuration "/api.config.json", modelTemplate := some "/m.jinja" }

/-- A template that the command names does not count for a configuration. -/
theorem not_heeded_labelled :
    ¬ ∀ (w w' : Machine) (c : GenerateCommand) (all : List TargetSettings) (targets : List Target),
      (c.targets : StateM Machine _).run w = (.ok all, w') → c.asked.run w = (.ok targets, w) →
        List.Forall₂ (Heeds w c) targets all := by
  intro hclaim
  have hrun : (List.map fun s : TargetSettings => s.models.any (·.transform.isNone)) <$>
      ((labelled.targets : StateM Machine _).run shelf).1 = .ok [true, true] := by decide +kernel
  obtain ⟨all, hall, hplain⟩ := except_map_eq_ok.1 hrun
  have hsettings : (labelled.targets : StateM Machine _).run shelf = (.ok all, shelf) :=
    Prod.ext hall (looks_targets labelled shelf)
  obtain ⟨settings, hbefore, -, -⟩ := before_of_targets hsettings
  obtain ⟨targets, hasked, -⟩ := stated_of_before hbefore
  have hheeded := hclaim shelf shelf labelled all targets hsettings hasked
  cases hheeded with
  | nil => simp at hplain
  | cons hfirst _ =>
    obtain ⟨hfirstPlain, -⟩ := List.cons.inj hplain
    obtain ⟨r, hr, hnone⟩ := (Option.any_eq_true _ _).1 hfirstPlain
    have hmodels := hfirst.models
    rw [if_neg (by decide), hr] at hmodels
    obtain ⟨o, ho⟩ : ∃ o, HeedsForModels shelf labelled o r := by
      generalize Toggle.options? (α := ModelFileOptions) _ = options at hmodels
      cases hmodels with
      | some h => exact ⟨_, h⟩
    obtain ⟨text, htransform, t, -, rfl⟩ := ho.transform
    rw [htransform] at hnone
    cases hnone

end CommandLine.GenerateCommand

end TypedClient

import TypedClient.Client.MediaTypeGrammar
import TypedClient.Proofs.Client.Conservation
import TypedClient.Proofs.Naming.Identifiers
import TypedClient.Text.AsciiTable

/-! Actions that get another name. A name that is taken is cut before the `Async` at its end, which
is five bytes long in whatever letters, and gets the smallest number from two on that makes it free.
What is taken in a place of the tree are the names given there before. So the names of a client can
be told from the list of the actions as they are handed in, and there is one warning for each of them
that does not keep its name. -/

namespace TypedClient

namespace Text

/-- Changing case leaves a text as long as it is, also in bytes. -/
theorem utf8ByteSize_lower (s : String) : (lower s).utf8ByteSize = s.utf8ByteSize := by
  have hchar : ∀ c : Char, c.toLower.utf8Size = c.utf8Size := by
    intro c
    by_cases hc : c.isUpper
    · have hsize : ∀ d : Char, d.isAlphanum → d.utf8Size = 1 := fun d hd => by
        have hlt := lt_of_isAlphanum hd
        rw [Char.utf8Size_eq_one_iff, UInt32.le_iff_toNat_le]
        exact Nat.le_of_lt_succ hlt
      have halpha : c.isAlphanum := by simp [Char.isAlphanum, Char.isAlpha, hc]
      rw [hsize c halpha, hsize _ (isAlphanum_toLower halpha)]
    · rw [Char.toLower_eq_of_not_isUpper hc]
  have hchars : ∀ cs : List Char,
      String.utf8Len (cs.map Char.toLower) = String.utf8Len cs := by
    intro cs
    induction cs with
    | nil => rfl
    | cons c cs ih => simp [ih, hchar]
  rw [lower, String.utf8ByteSize_ofList, hchars, ← String.utf8ByteSize_ofList, String.ofList_toList]

end Text

namespace RouteTree

/-! ### Where a number goes -/

/-- A name in two parts, the second of which is the `async` at its end, in whatever letters. -/
structure Cut (name stem ending : String) : Prop where
  whole : stem ++ ending = name
  ending : if Route.endsInAsync name then Text.lower ending = "async" else ending = ""

theorem cut_splitAsync (name : String) :
    Cut name (String.ofList (splitAsync name).1) (String.ofList (splitAsync name).2) := by
  constructor
  · rw [← String.ofList_append]
    unfold splitAsync
    dsimp only
    rw [List.take_append_drop, String.ofList_toList]
  · unfold splitAsync
    dsimp only
    split
    · next hasync =>
      have hsuffix := (Route.endsInAsync_iff name).1 hasync
      have hdrop := List.suffix_iff_eq_drop.1 hsuffix
      rw [Text.low, List.length_map, ← List.map_drop] at hdrop
      rw [Text.lower, String.toList_ofList]
      exact congrArg String.ofList hdrop.symm
    · rw [List.drop_length]

/-- In bytes, a name is cut five before its end or at its end, and there a character begins. -/
theorem Cut.bytes {name stem ending : String} (h : Cut name stem ending) :
    stem.utf8ByteSize + (if Route.endsInAsync name then 5 else 0) = name.utf8ByteSize := by
  have hending : (if Route.endsInAsync name then 5 else 0) = ending.utf8ByteSize := by
    have hcases := h.ending
    split at hcases
    · next hasync =>
      rw [if_pos hasync, ← Text.utf8ByteSize_lower ending, hcases]
      rfl
    · next hasync =>
      rw [if_neg hasync, hcases]
      rfl
  rw [hending, ← String.utf8ByteSize_append, h.whole]

/-! ### The smallest free number -/

theorem numbered_eq (name : String) (n : Nat) :
    numbered name n =
      String.ofList (splitAsync name).1 ++ toString n ++ String.ofList (splitAsync name).2 := by
  unfold numbered
  dsimp only
  rw [String.ofList_append, String.ofList_append, String.ofList_toList]

/-- The search ends at the smallest number that is free, after as many as names are taken at most. -/
theorem freshName_of_mem {taken : List String} {name : String} (h : name ∈ taken) :
    ∃ n, freshName taken name = numbered name n ∧ 2 ≤ n ∧ n ≤ taken.length + 2 ∧
      numbered name n ∉ taken ∧ ∀ k, 2 ≤ k → k < n → numbered name k ∈ taken := by
  obtain ⟨free, hmem, hfree⟩ := exists_numbered_not_mem taken name
  obtain ⟨m, hm, rfl⟩ := List.mem_map.1 hmem
  have hsome : ((List.range' 2 (taken.length + 1)).find?
      fun n => !taken.contains (numbered name n)).isSome :=
    List.find?_isSome.2 ⟨m, hm, by simpa using hfree⟩
  obtain ⟨n, hn⟩ := Option.isSome_iff_exists.1 hsome
  obtain ⟨hnot, hrange, hbefore⟩ := List.find?_range'_eq_some.1 hn
  rw [List.mem_range'_1] at hrange
  refine ⟨n, ?_, hrange.1, by omega, by simpa using hnot, fun k hk hlt => ?_⟩
  · rw [freshName, if_pos (by simpa using h), List.find?_map]
    simp only [Function.comp_def, hn, Option.map_some, Option.getD_some]
  · simpa using hbefore k hk hlt

/-- A name with the smallest number that makes it free, before the `async` at its end. -/
def Numbered (taken : List String) (name given : String) : Prop :=
  ∃ stem ending n, Cut name stem ending ∧
    stem.utf8ByteSize + (if Route.endsInAsync name then 5 else 0) = name.utf8ByteSize ∧
    given = stem ++ toString n ++ ending ∧ 2 ≤ n ∧ n ≤ taken.length + 2 ∧ given ∉ taken ∧
    ∀ k, 2 ≤ k → k < n → stem ++ toString k ++ ending ∈ taken

theorem numbered_freshName {taken : List String} {name : String} (h : name ∈ taken) :
    Numbered taken name (freshName taken name) := by
  obtain ⟨n, hgiven, htwo, hle, hfree, hbefore⟩ := freshName_of_mem h
  rw [hgiven]
  refine ⟨_, _, n, cut_splitAsync name, (cut_splitAsync name).bytes, numbered_eq name n, htwo, hle,
    hfree, fun k hk hlt => ?_⟩
  rw [← numbered_eq]
  exact hbefore k hk hlt

/-- What a name becomes beside names that are taken, and what is reported of it. -/
structure Disambiguated (taken path : List String) (name : String) : Prop where
  free : freshName taken name ∉ taken
  kept : name ∉ taken →
    freshName taken name = name ∧ renameWarning path name (freshName taken name) = []
  numbered : name ∈ taken → Numbered taken name (freshName taken name) ∧
    renameWarning path name (freshName taken name) =
      [.renamedAction (if path.isEmpty then "/" else String.intercalate "." path) name
        (freshName taken name)]

theorem renameWarning_self (path : List String) (name : String) :
    renameWarning path name name = [] := if_pos rfl

theorem disambiguated (taken path : List String) (name : String) :
    Disambiguated taken path name where
  free := freshName_not_mem taken name
  kept h := by rw [freshName_of_not_mem h, renameWarning_self]; exact ⟨rfl, rfl⟩
  numbered h := by
    refine ⟨numbered_freshName h, if_neg fun heq => freshName_not_mem taken name ?_⟩
    rw [heq]
    exact h

/-! ### Names in a place -/

/-- The names that are given under a path. -/
def namesUnder (path : List String) (given : List (List String × String)) : List String :=
  (given.filter (·.1 == path)).map Prod.snd

theorem namesUnder_concat (path path' : List String) (given : List (List String × String))
    (name : String) : namesUnder path' (given ++ [(path, name)]) =
      namesUnder path' given ++ if path = path' then [name] else [] := by
  rw [namesUnder, List.filter_append, List.map_append, namesUnder]
  by_cases hpath : path = path' <;> simp [hpath]

/-- Actions under the names that they get, one after the other, each beside those that were given
under its path before. -/
def disambiguate : List (List String × String) → List (List String × Action) → List Action
  | _, [] => []
  | given, (path, a) :: rest =>
    let name := freshName (namesUnder path given) a.name
    { a with name } :: disambiguate (given ++ [(path, name)]) rest

theorem keys_under_insert (a : Action) (path path' : List String) (t : RouteTree)
    (hfree : a.name ∉ Assoc.keys (under path t).actions) :
    Assoc.keys (under path' (insert a path t)).actions =
      Assoc.keys (under path' t).actions ++ if path = path' then [a.name] else [] := by
  induction path generalizing path' t with
  | nil =>
    obtain ⟨actions, groups⟩ := t
    cases path' with
    | nil => exact (Assoc.keys_put actions a.name a).trans (if_neg hfree)
    | cons s path' => exact (List.append_nil _).symm
  | cons s path ih =>
    obtain ⟨actions, groups⟩ := t
    cases path' with
    | nil => exact (List.append_nil _).symm
    | cons s' path' =>
      have hunder : under (s' :: path') (insert a (s :: path) (.node actions groups)) =
          under path' ((Assoc.get? (Assoc.modify groups s empty (insert a path)) s').getD empty) :=
        rfl
      rw [hunder, Assoc.modify, Assoc.get?_put]
      by_cases hs : s = s'
      · subst hs
        have hbelow := ih path' ((Assoc.get? groups s).getD empty) hfree
        simp only [List.cons.injEq, true_and]
        exact hbelow
      · rw [if_neg hs, if_neg fun heq => hs (List.cons.inj heq).1, List.append_nil]
        rfl

/-- A tree has in each place the names that were given under its path. -/
def Holds (given : List (List String × String)) (t : RouteTree) : Prop :=
  ∀ path, Assoc.keys (under path t).actions = namesUnder path given

theorem holds_empty : Holds [] empty := by
  intro path
  induction path with
  | nil => rfl
  | cons s path ih => exact ih

theorem Holds.place {given : List (List String × String)} {t : RouteTree} (h : Holds given t)
    (path : List String) (a : Action) :
    Holds (given ++ [(path, freshName (namesUnder path given) a.name)]) (t.place path a).1 := by
  intro path'
  have hkeys := keys_under_insert
    { a with name := freshName (Assoc.keys (under path t).actions) a.name } path path' t
    (freshName_not_mem _ a.name)
  rw [namesUnder_concat, ← h path, ← h path']
  exact hkeys

end RouteTree

namespace Client

open RouteTree

/-- What is reported of actions under their paths that get other names. -/
def renameWarnings (entries : List (List String × Action)) (final : List Action) : List Warning :=
  (entries.zip final).flatMap fun p => renameWarning p.1.1 p.1.2.name p.2.name

/-- The actions of a tree are the ones handed in under the names that they get. -/
theorem placeEach_spec (entries : List (List String × Action)) {given : List (List String × String)}
    {tree : RouteTree} (h : Holds given tree) (warnings : List Warning) :
    (placeEach entries (tree, warnings)).1.held.Perm (disambiguate given entries ++ tree.held) ∧
      (placeEach entries (tree, warnings)).2 =
        warnings ++ renameWarnings entries (disambiguate given entries) := by
  induction entries generalizing given tree warnings with
  | nil => exact ⟨List.Perm.refl _, (List.append_nil _).symm⟩
  | cons e rest ih =>
    obtain ⟨path, a⟩ := e
    obtain ⟨hheld, hwarnings⟩ := ih (h.place path a) (warnings ++ (tree.place path a).2)
    have hname : freshName (Assoc.keys (under path tree).actions) a.name =
        freshName (namesUnder path given) a.name := by rw [h path]
    have hfirst := held_insert { a with name := freshName _ a.name } path tree
      (freshName_not_mem (Assoc.keys (under path tree).actions) a.name)
    constructor
    · refine (hheld.trans (hfirst.append_left _)).trans ?_
      rw [hname]
      exact List.perm_middle
    · have hplaced : (tree.place path a).2 =
          renameWarning path a.name (freshName (namesUnder path given) a.name) := by
        rw [← hname]
        rfl
      refine hwarnings.trans ?_
      rw [List.append_assoc, hplaced]
      rfl

theorem forall₂_disambiguate (given : List (List String × String))
    (entries : List (List String × Action)) :
    List.Forall₂ (fun a b => ∃ name, b = { a with name }) (entries.map Prod.snd)
      (disambiguate given entries) := by
  induction entries generalizing given with
  | nil => exact .nil
  | cons e rest ih => exact .cons ⟨_, rfl⟩ (ih _)

/-- One warning for each action that does not keep its name. -/
theorem length_renameWarnings (entries : List (List String × Action)) (final : List Action) :
    (renameWarnings entries final).length =
      ((entries.map Prod.snd).zip final).countP fun p => p.2.name ≠ p.1.name := by
  induction entries generalizing final with
  | nil => rfl
  | cons e rest ih =>
    cases final with
    | nil => rfl
    | cons b final =>
      have hrest := ih final
      rw [renameWarnings] at hrest
      have hfirst : (renameWarning e.1 e.2.name b.name).length =
          if b.name = e.2.name then 0 else 1 := by
        rw [renameWarning, apply_ite List.length]
        rfl
      rw [renameWarnings, List.zip_cons_cons, List.flatMap_cons, List.length_append, hrest, hfirst,
        List.map_cons, List.zip_cons_cons, List.countP_cons, Nat.add_comm]
      by_cases heq : b.name = e.2.name <;> simp [heq]

/-- A name that is free is kept, any other one gets the smallest number that makes it free. In a
client each action has the name that this gives it beside those of its place before it, and there is
one warning for each that has another name than it was handed in with. -/
theorem disambiguated_project [MediaType.Reading] [Text.Transliteration] :
    (∀ taken path name, Disambiguated taken path name) ∧
    ∀ (d : Document) (options : Options) {r r' : Resolver} {api : ApiDefinition}
      {warnings : List Warning}, outcome (project d options) r = (.ok (api, warnings), r') →
      ∃ made, outcome (d.operations.mapM (submitted d options)) r = (.ok made, r') ∧
        let entries := (d.operations.map fun o => (routeOf o).1).zip made
        let final := disambiguate [] entries
        List.Forall₂ (fun a b => ∃ name, b = { a with name }) made final ∧
        (api.allActions.map Prod.snd).Perm final ∧
        warnings = renameWarnings entries final ∧
        warnings.length = (made.zip final).countP fun p => p.2.name ≠ p.1.name := by
  refine ⟨disambiguated, fun d options r r' api warnings h => ?_⟩
  rw [project, placeAll_eq, bind_assoc] at h
  obtain ⟨made, s, hmade, h⟩ := outcome_bind_eq_ok.1 h
  simp only [pure_bind, outcome_pure, Prod.mk.injEq, Except.ok.injEq] at h
  obtain ⟨⟨rfl, rfl⟩, rfl⟩ := h
  refine ⟨made, hmade, ?_⟩
  set entries := (d.operations.map fun o => (routeOf o).1).zip made with hentries
  have hsnd : entries.map Prod.snd = made := (map_zip_of_outcome_mapM hmade _).2
  obtain ⟨hheld, hwarnings⟩ := placeEach_spec entries holds_empty []
  rw [List.nil_append] at hwarnings
  refine ⟨hsnd ▸ forall₂_disambiguate [] entries, ?_, hwarnings, ?_⟩
  · have hlaid := allActions_arrange d.tagDescription (placeEach entries (RouteTree.empty, [])).1
    exact (hlaid.trans hheld).trans (List.Perm.of_eq (List.append_nil _))
  · rw [hwarnings, length_renameWarnings, hsnd]

theorem disambiguated_project_shop :
    freshName ["GetASYNC", "Get2ASYNC"] "GetASYNC" = "Get3ASYNC" ∧
      Numbered ["GetASYNC", "Get2ASYNC"] "GetASYNC" "Get3ASYNC" ∧
      freshName ["GetASYNC"] "GetAsync" = "GetAsync" ∧
      ∃ r, outcome (project shop alike) {} =
          (.ok (shopClient, [.renamedAction "Shop" "Same" "Same2"]), r) ∧
        ∃ made, outcome (shop.operations.mapM (submitted shop alike)) {} = (.ok made, r) ∧
          (made.zip (disambiguate [] ((shop.operations.map fun o => (routeOf o).1).zip made))).countP
            (fun p => p.2.name ≠ p.1.name) = 1 := by
  have hfresh : freshName ["GetASYNC", "Get2ASYNC"] "GetASYNC" = "Get3ASYNC" := by decide +kernel
  have htaken := ((disambiguated_project.1 ["GetASYNC", "Get2ASYNC"] ["Shop"] "GetASYNC").numbered
    (by decide)).1
  have hkept := (disambiguated_project.1 ["GetASYNC"] ["Shop"] "GetAsync").kept (by decide)
  have hrun : (outcome (project shop alike) {}).1 =
      .ok (shopClient, [.renamedAction "Shop" "Same" "Same2"]) := by decide +kernel
  obtain ⟨made, hmade, -, -, -, hcount⟩ := disambiguated_project.2 shop alike (Prod.ext hrun rfl)
  exact ⟨hfresh, hfresh ▸ htaken, hkept.1, _, Prod.ext hrun rfl, made, hmade, hcount.symm⟩

end Client

end TypedClient

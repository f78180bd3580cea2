import Mathlib.Data.List.Infix
import TypedClient.Proofs.Code.Pieces

/-! Comments in generated code. A comment ends at the first `*/` after its opening, wherever that
stands. What a document says is put into comments as it is, but for line breaks in object types; so
a comment ends where it was meant to if and only if the text in it has no `*/`. -/

namespace TypedClient.Code

/-! ### Where a comment ends -/

/-- There is a `*/` in the text. -/
def Closes (cs : List Char) : Prop := ['*', '/'] <:+: cs

instance (cs : List Char) : Decidable (Closes cs) :=
  inferInstanceAs (Decidable (['*', '/'] <:+: cs))

/-- What follows the first `*/` of a text. -/
def pastComment? : List Char → Option (List Char)
  | [] => none
  | c :: cs => if c = '*' ∧ cs.head? = some '/' then some cs.tail else pastComment? cs

theorem closes_cons_iff {c : Char} {cs : List Char} :
    Closes (c :: cs) ↔ (c = '*' ∧ cs.head? = some '/') ∨ Closes cs := by
  unfold Closes
  rw [List.infix_cons_iff]
  cases cs with
  | nil => simp
  | cons d ds => simp [eq_comm]

/-- Reading a comment goes past a body without a closer, and not past another. -/
theorem pastComment?_eq_iff (body rest : List Char) :
    pastComment? (body ++ '*' :: '/' :: rest) = some rest ↔ ¬ Closes body := by
  induction body with
  | nil => simp [pastComment?, Closes]
  | cons c cs ih =>
    rw [List.cons_append, pastComment?, closes_cons_iff]
    cases cs with
    | nil =>
      have hnone : ¬ Closes [] := by decide
      simp only [List.nil_append] at ih
      simp [ih, hnone]
    | cons d ds =>
      by_cases hcloser : c = '*' ∧ d = '/'
      · obtain ⟨rfl, rfl⟩ := hcloser
        have hlonger : ds ++ '*' :: '/' :: rest ≠ rest := by
          intro h
          have hlength := congrArg List.length h
          simp only [List.length_append, List.length_cons] at hlength
          omega
        simpa using hlonger
      · have hnot : ¬ (c = '*' ∧ (d :: ds ++ '*' :: '/' :: rest).head? = some '/') := by
          simpa using hcloser
        have hnot' : ¬ (c = '*' ∧ (d :: ds).head? = some '/') := by
          simpa using hcloser
        rw [if_neg hnot, ih]
        simp only [hnot', false_or]

/-! ### Closers in parts of a text -/

/-- A closer does not begin in one part and end in the next when one of its characters cannot stand
there. -/
theorem closes_append_iff {a b : List Char} (h : a.getLast? ≠ some '*' ∨ b.head? ≠ some '/') :
    Closes (a ++ b) ↔ Closes a ∨ Closes b := by
  unfold Closes
  rw [List.infix_append_iff]
  constructor
  · rintro (ha | hb | ⟨l, r, hsplit, hl, hr⟩)
    · exact .inl ha
    · exact .inr hb
    · match l, r, hsplit with
      | [], r, hsplit =>
        rw [List.nil_append] at hsplit
        exact .inr (hsplit ▸ hr.isInfix)
      | [x], r, hsplit =>
        rw [List.singleton_append] at hsplit
        cases hsplit
        obtain ⟨front, rfl⟩ := hl
        obtain ⟨back, rfl⟩ := hr
        simp at h
      | [x, y], r, hsplit =>
        cases hsplit
        exact .inl hl.isInfix
      | x :: y :: z :: l, r, hsplit => simp at hsplit
  · rintro (ha | hb)
    · exact .inl ha
    · exact .inr (.inl hb)

theorem not_closes_of_blank {cs : List Char} (h : ∀ c ∈ cs, Text.isBlank c = true) :
    ¬ Closes cs := by
  intro hcloses
  have hstar : '*' ∈ cs := hcloses.subset List.mem_cons_self
  exact absurd (h _ hstar) (by decide)

theorem getLast?_ne_of_blank {cs : List Char} (h : ∀ c ∈ cs, Text.isBlank c = true) :
    cs.getLast? ≠ some '*' := by
  intro hlast
  exact absurd (h _ (List.mem_of_getLast? hlast)) (by decide)

theorem head?_ne_of_blank {cs : List Char} (h : ∀ c ∈ cs, Text.isBlank c = true) :
    cs.head? ≠ some '/' := by
  intro hhead
  exact absurd (h _ (List.mem_of_head? hhead)) (by decide)

/-- Blanks at both ends do not matter. -/
theorem closes_trimChars_iff (cs : List Char) : Closes (Text.trimChars cs) ↔ Closes cs := by
  have hfirst : Closes cs ↔ Closes (cs.dropWhile Text.isBlank) := by
    have hblank : ∀ c ∈ cs.takeWhile Text.isBlank, Text.isBlank c = true :=
      List.all_eq_true.1 List.all_takeWhile
    conv_lhs => rw [← List.takeWhile_append_dropWhile (p := Text.isBlank) (l := cs)]
    rw [closes_append_iff (.inl (getLast?_ne_of_blank hblank))]
    exact or_iff_right (not_closes_of_blank hblank)
  have hlast : ∀ ds : List Char,
      Closes ds ↔ Closes (ds.reverse.dropWhile Text.isBlank).reverse := by
    intro ds
    have hblank : ∀ c ∈ (ds.reverse.takeWhile Text.isBlank).reverse, Text.isBlank c = true :=
      fun c hc => List.all_eq_true.1 List.all_takeWhile c (List.mem_reverse.1 hc)
    have hsplit : ds = (ds.reverse.dropWhile Text.isBlank).reverse ++
        (ds.reverse.takeWhile Text.isBlank).reverse := by
      rw [← List.reverse_append, List.takeWhile_append_dropWhile, List.reverse_reverse]
    conv_lhs => rw [hsplit]
    rw [closes_append_iff (.inr (head?_ne_of_blank hblank))]
    exact or_iff_left (not_closes_of_blank hblank)
  rw [Text.trimChars, ← hlast, ← hfirst]

theorem closes_intercalate_iff {c : Char} (hstar : c ≠ '*') (hslash : c ≠ '/')
    (parts : List (List Char)) :
    Closes ([c].intercalate parts) ↔ ∃ part ∈ parts, Closes part := by
  have hsingle : ¬ Closes [c] := fun h => absurd h.length_le (by simp)
  induction parts with
  | nil => simp [Closes]
  | cons part rest ih =>
    cases rest with
    | nil => simp
    | cons next rest =>
      rw [List.intercalate_cons_cons, closes_append_iff (.inl (by simpa using hstar)),
        closes_append_iff (.inr (by simpa using hslash))]
      simp only [ih, hsingle, or_false, List.exists_mem_cons_iff]

theorem intercalate_pieces (c : Char) (cs : List Char) :
    [c].intercalate (Text.pieces (· == c) cs) = cs := by
  induction cs with
  | nil => rfl
  | cons d ds ih =>
    rw [Text.pieces]
    cases hp : Text.pieces (· == c) ds with
    | nil => exact absurd hp (Text.pieces_ne_nil _ _)
    | cons p ps =>
      rw [hp] at ih
      split
      · next hcut =>
        rw [List.intercalate_cons_cons, ih]
        simpa using (beq_iff_eq.1 hcut).symm
      · cases ps with
        | nil => simpa using ih
        | cons q qs =>
          rw [List.intercalate_cons_cons] at ih ⊢
          simp only [List.cons_append, ih]

theorem closes_dropReturn_iff (cs : List Char) : Closes (Text.dropReturn cs) ↔ Closes cs := by
  unfold Text.dropReturn
  split
  · next hlast =>
    obtain ⟨front, rfl⟩ := List.getLast?_eq_some_iff.1 hlast
    have hreturn : ¬ Closes ['\r'] := by decide
    rw [List.dropLast_concat, closes_append_iff (.inr (by decide))]
    exact (or_iff_left hreturn).symm
  · rfl

theorem closes_lines_iff (s : String) :
    (∃ line ∈ Text.lines s, Closes line.toList) ↔ Closes s.toList := by
  have hempty : ¬ Closes [] := by decide
  have hpieces := closes_intercalate_iff (c := '\n') (by decide) (by decide)
    (Text.pieces (· == '\n') s.toList)
  rw [intercalate_pieces] at hpieces
  unfold Text.lines
  rcases List.eq_nil_or_concat (Text.pieces (· == '\n') s.toList) with hp | ⟨front, last, hp⟩
  · exact absurd hp (Text.pieces_ne_nil _ _)
  · rw [hpieces, hp]
    simp only [List.concat_eq_append, List.getLast?_concat, List.dropLast_concat]
    cases last with
    | nil => simp [hempty, closes_dropReturn_iff, or_and_right, exists_or]
    | cons c cs => simp [closes_dropReturn_iff, or_and_right, exists_or]

/-- Putting a text on one line keeps its closers. -/
theorem closes_singleLine_iff (s : String) : Closes (singleLine s).toList ↔ Closes s.toList := by
  have hempty : ¬ Closes [] := by decide
  have hspace : " ".toList = [' '] := rfl
  rw [singleLine, String.toList_intercalate, hspace,
    closes_intercalate_iff (by decide) (by decide), ← closes_lines_iff]
  constructor
  · rintro ⟨part, hpart, hcloses⟩
    simp only [List.mem_map, List.mem_filter] at hpart
    obtain ⟨_, ⟨⟨line, hline, rfl⟩, -⟩, rfl⟩ := hpart
    refine ⟨line, hline, ?_⟩
    rwa [Text.trim, String.toList_ofList, closes_trimChars_iff] at hcloses
  · rintro ⟨line, hline, hcloses⟩
    have htrimmed : Closes (Text.trim line).toList := by
      rwa [Text.trim, String.toList_ofList, closes_trimChars_iff]
    have hne : Text.trim line ≠ "" := by
      intro h
      rw [h] at htrimmed
      exact hempty htrimmed
    refine ⟨_, List.mem_map_of_mem (List.mem_filter.2 ⟨List.mem_map_of_mem hline, ?_⟩), htrimmed⟩
    simpa using hne

/-! ### Comments that end where they were meant to -/

/-- Read from behind the opening of any of its comments, the code goes on where this comment was
meant to end. -/
def Contained (ps : List Piece) : Prop :=
  ∀ before body after, ps = before ++ .comment body :: after →
    pastComment? ((printed (.comment body :: after)).toList.drop 2) = some (printed after).toList

theorem contained_iff (ps : List Piece) :
    Contained ps ↔ ∀ body, .comment body ∈ ps → ¬ Closes ('*' :: body.toList) := by
  have hread : ∀ body after, pastComment? ((printed (.comment body :: after)).toList.drop 2) =
      some (printed after).toList ↔ ¬ Closes ('*' :: body.toList) := by
    intro body after
    have htext : (printed (.comment body :: after)).toList =
        '/' :: '*' :: ('*' :: body.toList ++ '*' :: '/' :: (printed after).toList) := by
      rw [printed_cons, Piece.text]
      simp
    rw [htext]
    exact pastComment?_eq_iff _ _
  constructor
  · intro h body hbody
    obtain ⟨before, after, hps⟩ := List.append_of_mem hbody
    exact (hread body after).1 (h before body after hps)
  · intro h before body after hps
    apply (hread body after).2
    apply h body
    rw [hps]
    exact List.mem_append_right _ List.mem_cons_self

/-- What decides whether the comments of these pieces end where they were meant to: the texts that
are shown in them. -/
def Shows (ps : List Piece) (texts : List String) : Prop :=
  Contained ps ↔ ∀ text ∈ texts, ¬ Closes text.toList

theorem Shows.append {ps qs : List Piece} {texts texts' : List String} (h : Shows ps texts)
    (h' : Shows qs texts') : Shows (ps ++ qs) (texts ++ texts') := by
  unfold Shows at *
  rw [List.forall_mem_append, ← h, ← h', contained_iff, contained_iff, contained_iff]
  simp only [List.mem_append, or_imp, forall_and]

theorem Shows.left {ps qs : List Piece} {texts : List String} (h : Shows ps texts)
    (h' : Shows qs []) : Shows (ps ++ qs) texts := by
  simpa using h.append h'

theorem Shows.right {ps qs : List Piece} {texts : List String} (h : Shows ps [])
    (h' : Shows qs texts) : Shows (ps ++ qs) texts :=
  h.append h'

theorem shows_nil : Shows [] [] := by
  simp [Shows, contained_iff]

theorem Shows.flatMap {α : Type} {f : α → List Piece} {g : α → List String}
    (h : ∀ x, Shows (f x) (g x)) (xs : List α) : Shows (xs.flatMap f) (xs.flatMap g) := by
  induction xs with
  | nil => exact shows_nil
  | cons x xs ih => exact (h x).append ih

theorem shows_code (text : String) : Shows [.code text] [] := by
  simp [Shows, contained_iff]

theorem shows_codeLines (ls : List String) : Shows (codeLines ls) [] := by
  simp [Shows, contained_iff, codeLines]

theorem shows_comment {body : String} {texts : List String}
    (h : Closes ('*' :: body.toList) ↔ ∃ text ∈ texts, Closes text.toList) :
    Shows [.comment body] texts := by
  unfold Shows
  rw [contained_iff]
  simp only [List.mem_singleton, Piece.comment.injEq, forall_eq, h]
  simp

/-- Blanks stand around a text between an opening and a closer. -/
theorem closes_spaced_iff (text : String) :
    Closes ('*' :: (" " ++ text ++ " ").toList) ↔ Closes text.toList := by
  have hbefore : ¬ Closes ['*', ' '] := by decide
  have hafter : ¬ Closes [' '] := by decide
  have hsplit : '*' :: (" " ++ text ++ " ").toList = ['*', ' '] ++ text.toList ++ [' '] := by simp
  rw [hsplit, closes_append_iff (.inr (by decide)), closes_append_iff (.inl (by decide))]
  simp only [hbefore, hafter, false_or, or_false]

theorem shows_docPieces (indent : String) (description : Option String) :
    Shows (docPieces indent description) (described description).toList := by
  unfold docPieces
  cases described description with
  | none => exact shows_nil
  | some d =>
    have hcomment : Shows [.comment (" " ++ d ++ " ")] [d] :=
      shows_comment (by simpa using closes_spaced_iff d)
    exact ((shows_code indent).right hcomment).left (shows_code "\n")

theorem shows_memberPieces (m : Member) :
    Shows (memberPieces m) (described m.description).toList := by
  unfold memberPieces
  cases described m.description with
  | none => exact shows_nil.left (shows_code _)
  | some d =>
    have hcomment : Shows [.comment (" " ++ singleLine d ++ " ")] [d] := by
      apply shows_comment
      rw [closes_spaced_iff, closes_singleLine_iff]
      simp
    exact (hcomment.left (shows_code "\n")).left (shows_code _)

/-- The descriptions of members. -/
def memberTexts (ms : List Member) : List String :=
  ms.flatMap fun m => (described m.description).toList

theorem shows_intercalate (separator : String) (ms : List Member) :
    Shows ([Piece.code separator].intercalate (ms.map memberPieces)) (memberTexts ms) := by
  induction ms with
  | nil => exact shows_nil
  | cons m rest ih =>
    cases rest with
    | nil => simpa [memberTexts] using shows_memberPieces m
    | cons next rest =>
      rw [List.map_cons, List.map_cons, List.intercalate_cons_cons]
      exact ((shows_memberPieces m).left (shows_code separator)).append ih

theorem shows_objectPieces (ms : List Member) : Shows (objectPieces ms) (memberTexts ms) := by
  unfold objectPieces
  split
  · next hempty =>
    rw [List.isEmpty_iff.1 hempty]
    exact shows_code "any"
  · exact ((shows_code _).right (shows_intercalate ";\n" ms)).left (shows_code _)

/-! ### Models -/

/-- The texts in the comments of a model: its description, and those of its properties unless it is
an enumeration. -/
def modelTexts (m : ModelEntry) : List String :=
  (described m.description).toList ++
    (if m.definition = .enum then []
    else m.properties.flatMap fun p => (described p.description).toList)

theorem shows_propertyPieces (isClass : Bool) (p : ModelProperty) :
    Shows (propertyPieces isClass p) (described p.description).toList :=
  (shows_docPieces "  " p.description).left (shows_codeLines _)

theorem shows_modelPieces (m : ModelEntry) : Shows (modelPieces m) (modelTexts m) := by
  have hbody : ∀ isClass, Shows (codeLines [headLine m] ++
      m.properties.flatMap (propertyPieces isClass) ++ codeLines ["\x7d"])
      (m.properties.flatMap fun p => (described p.description).toList) :=
    fun isClass => ((shows_codeLines _).right
      (Shows.flatMap (shows_propertyPieces isClass) m.properties)).left (shows_codeLines _)
  have htexts : memberTexts (m.properties.map (Member.ofProperty false)) =
      m.properties.flatMap fun p => (described p.description).toList := by
    simp [memberTexts, Member.ofProperty, List.flatMap_map]
  have hdeclaration : Shows (declarationPieces m)
      (if m.definition = .enum then []
      else m.properties.flatMap fun p => (described p.description).toList) := by
    unfold declarationPieces
    cases m.definition with
    | enum => exact shows_codeLines _
    | type =>
      rw [if_neg (by decide), ← htexts]
      exact ((shows_code _).right (shows_objectPieces _)).left (shows_code _)
    | «class» => exact hbody true
    | interface => exact hbody false
  exact ((shows_codeLines _).right (shows_docPieces "" m.description)).append hdeclaration

/-! ### Clients -/

/-- The texts in the comments of an action: its path, its description and those of its
parameters. -/
def actionTexts (a : Action) : List String :=
  a.url :: ((described a.description).toList ++
    a.parameters.flatMap fun p => (described p.description).toList)

def controllerTexts (c : Controller) : List String :=
  (described c.description).toList ++ c.actions.flatMap actionTexts

def clientTexts (d : ApiDefinition) : List String :=
  (d.namespaces.flatMap fun n =>
    (described n.description).toList ++ n.controllers.flatMap controllerTexts) ++
  d.controllers.flatMap controllerTexts ++ d.actions.flatMap actionTexts

theorem closes_actionBody_iff (a : Action) :
    Closes ('*' :: (actionBody a).toList) ↔
      Closes a.url.toList ∨ ∃ d ∈ (described a.description).toList, Closes d.toList := by
  let front : List Char := '*' :: ("\n   * " ++ a.method.name ++ " ").toList
  have hfront : ¬ Closes front := by
    show ¬ Closes ('*' :: ("\n   * " ++ a.method.name ++ " ").toList)
    cases a.method <;> decide
  have hlast : front.getLast? ≠ some '*' := by
    show ('*' :: ("\n   * " ++ a.method.name ++ " ").toList).getLast? ≠ some '*'
    cases a.method <;> decide
  have hbetween : ¬ Closes "\n   * ".toList := by decide
  have hback : ¬ Closes "\n   ".toList := by decide
  unfold actionBody
  cases described a.description with
  | none =>
    have hsplit : '*' :: ("\n" ++ lines (["   * " ++ a.method.name ++ " " ++ a.url] ++
        (none : Option String).toList.map ("   * " ++ ·)) ++ "   ").toList =
        front ++ a.url.toList ++ "\n   ".toList := by
      simp [front, lines]
    rw [hsplit, closes_append_iff (.inr (by decide)), closes_append_iff (.inl hlast)]
    simp only [hfront, hback, false_or, or_false, Option.toList_none, List.not_mem_nil, false_and,
      exists_false]
  | some d =>
    have hsplit : '*' :: ("\n" ++ lines (["   * " ++ a.method.name ++ " " ++ a.url] ++
        (some d).toList.map ("   * " ++ ·)) ++ "   ").toList =
        front ++ a.url.toList ++ "\n   * ".toList ++ d.toList ++ "\n   ".toList := by
      simp [front, lines, String.join_cons]
    rw [hsplit, closes_append_iff (.inr (by decide)), closes_append_iff (.inl (by simp)),
      closes_append_iff (.inr (by decide)), closes_append_iff (.inl hlast)]
    simp only [hfront, hbetween, hback, false_or, or_false, Option.toList_some,
      List.mem_singleton, exists_eq_left]

theorem shows_argumentPieces (a : Action) :
    Shows (argumentPieces a)
      (a.parameters.flatMap fun p => (described p.description).toList) := by
  have htexts : memberTexts (a.parameters.map Member.ofParameter) =
      a.parameters.flatMap fun p => (described p.description).toList := by
    simp [memberTexts, Member.ofParameter, List.flatMap_map]
  unfold argumentPieces
  split
  · next hempty =>
    rw [List.isEmpty_iff.1 hempty]
    exact shows_nil.left (shows_code _)
  · rw [← htexts]
    exact (((shows_code _).right (shows_objectPieces _)).left (shows_code _)).left (shows_code _)

theorem shows_actionPieces (start : String) (a : Action) :
    Shows (actionPieces start a) (actionTexts a) := by
  have hcomment : Shows [.comment (actionBody a)]
      (a.url :: (described a.description).toList) := by
    apply shows_comment
    rw [closes_actionBody_iff, List.exists_mem_cons_iff]
  have hopening : Shows [.code "  ", .comment (actionBody a),
      .code ("\n  " ++ start ++ " " ++ a.name ++ "(")]
      (a.url :: (described a.description).toList) :=
    ((shows_code _).right hcomment).left (shows_code _)
  exact ((hopening.append (shows_argumentPieces a)).left (shows_code _)).left (shows_codeLines _)

theorem shows_classPieces (indent : String) (c : Controller) :
    Shows (classPieces indent c) (controllerTexts c) :=
  (((shows_docPieces indent c.description).left (shows_codeLines _)).append
    (Shows.flatMap (shows_actionPieces "static async") c.actions)).left (shows_codeLines _)

theorem shows_namespacePieces (n : ClientNamespace) :
    Shows (namespacePieces n)
      ((described n.description).toList ++ n.controllers.flatMap controllerTexts) :=
  ((((shows_codeLines _).right (shows_docPieces "" n.description)).left
    (shows_codeLines _)).append (Shows.flatMap (shows_classPieces "  ") n.controllers)).left
    (shows_codeLines _)

theorem shows_clientPieces (d : ApiDefinition) : Shows (clientPieces d) (clientTexts d) := by
  have hclass : ∀ c, Shows (codeLines [""] ++ classPieces "" c) (controllerTexts c) :=
    fun c => (shows_codeLines [""]).right (shows_classPieces "" c)
  have haction : ∀ a, Shows (codeLines [""] ++ actionPieces "export async function" a)
      (actionTexts a) :=
    fun a => (shows_codeLines [""]).right (shows_actionPieces _ a)
  exact (((shows_codeLines _).right (Shows.flatMap shows_namespacePieces d.namespaces)).append
    (Shows.flatMap hclass d.controllers)).append (Shows.flatMap haction d.actions)

/-! ### The whole code -/

/-- What is written for a model, for an object type and for a client, as comments and the code
between them. All comments end where they were meant to if and only if there is no `*/` in any
description that is shown, nor, in the comments of actions, in a path. -/
theorem comments_contained_iff (m : ModelEntry) (ms : List Member) (d : ApiDefinition) :
    (model m = printed (modelPieces m) ∧
      (Contained (modelPieces m) ↔ ∀ text ∈ modelTexts m, ¬ Closes text.toList)) ∧
    (objectType ms = printed (objectPieces ms) ∧
      (Contained (objectPieces ms) ↔ ∀ text ∈ memberTexts ms, ¬ Closes text.toList)) ∧
    client d = printed (clientPieces d) ∧
      (Contained (clientPieces d) ↔ ∀ text ∈ clientTexts d, ¬ Closes text.toList) :=
  ⟨⟨(printed_modelPieces m).symm, shows_modelPieces m⟩,
    ⟨(printed_objectPieces ms).symm, shows_objectPieces ms⟩,
    (printed_clientPieces d).symm, shows_clientPieces d⟩

/-- A pet whose description goes on as code. -/
def talkingPet : ModelEntry :=
  { name := "Pet", exportName := "Pet", key := "Pet", description := some "a */ b" }

/-- The comment for its description is closed by the description. -/
theorem not_contained_talkingPet :
    model talkingPet = "\n/** a */ b */\nexport interface Pet \x7b\n\x7d\n" ∧
      .comment " a */ b " ∈ modelPieces talkingPet ∧ ¬ Contained (modelPieces talkingPet) := by
  have hpieces : modelPieces talkingPet = [.code "\n", .code ""] ++ .comment " a */ b " ::
      [.code "\n", .code "export interface Pet \x7b\n", .code "\x7d\n"] := by
    decide +kernel
  refine ⟨by decide +kernel, by decide +kernel, fun hcontained => ?_⟩
  exact absurd (hcontained _ _ _ hpieces) (by decide +kernel)

end TypedClient.Code

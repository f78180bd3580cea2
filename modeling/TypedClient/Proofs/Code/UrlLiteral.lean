import Mathlib.Data.List.Infix
import TypedClient.Code.Presets

/-! Paths as template literals. A placeholder becomes the expression `params.` with its name, as it
is, while the type of `params` has the name as a key, in quotes where it is no identifier. So the
expression is an access to that member if and only if the name is an identifier.

Which characters beyond ASCII may stand in a name is for the language to say, so it is left open
here. -/

namespace TypedClient.Code

/-! ### Names of the language -/

/-- What an access to a member of `params` begins with. -/
def paramsDot : List Char := ['p', 'a', 'r', 'a', 'm', 's', '.']

/-- The characters that may begin a name, and those that may follow; in ASCII they are known. -/
structure Lexicon where
  start : Char → Bool
  part : Char → Bool
  ascii : ∀ c : Char, c.toNat < 128 → start c = Naming.isStart c ∧ part c = Naming.isPart c

namespace Lexicon

/-- No name has a character beyond ASCII. -/
def asciiOnly : Lexicon := ⟨Naming.isStart, Naming.isPart, fun _ _ => ⟨rfl, rfl⟩⟩

variable (L : Lexicon)

def isName : List Char → Bool
  | [] => false
  | c :: cs => L.start c && cs.all L.part

/-- The text of a string in single quotes, from behind the first of them. -/
def quoted? : List Char → Option (List Char)
  | [] => none
  | c :: cs =>
    if c = '\x27' then (if cs = [] then some [] else none)
    else if c = '\n' ∨ c = '\r' then none
    else if c = '\\' then
      match cs with
      | d :: ds => if d = '\\' ∨ d = '\x27' then (quoted? ds).map (d :: ·) else none
      | [] => none
    else (quoted? cs).map (c :: ·)

/-- The name of the member that is declared under this key. -/
def keyName? (key : List Char) : Option (List Char) :=
  if L.isName key then some key
  else match key with
    | c :: cs => if c = '\x27' then quoted? cs else none
    | [] => none

/-- The names of the members of the type of `params`. -/
def declared (parameters : List ActionParameter) : List (List Char) :=
  (parameters.map Member.ofParameter).filterMap fun m => L.keyName? (memberKey m.name).toList

/-- The member of `params` that an expression is an access to, when it is one. -/
def member? (expression : List Char) : Option (List Char) :=
  match paramsDot.isPrefixOf? expression with
  | some name => if L.isName name then some name else none
  | none => none

variable {L}

theorem isPart_of_isStart {c : Char} (h : Naming.isStart c = true) : Naming.isPart c = true := by
  simp only [Naming.isStart, Naming.isPart, Char.isAlphanum, Bool.or_eq_true] at h ⊢
  rcases h with (h | h) | h
  · exact .inl (.inl (.inl h))
  · exact .inl (.inr h)
  · exact .inr h

theorem lt_of_isPart {c : Char} (h : Naming.isPart c = true) : c.toNat < 128 := by
  simp only [Naming.isPart, Bool.or_eq_true, decide_eq_true_eq] at h
  rcases h with (h | rfl) | rfl
  · delta Char.isAlphanum Char.isAlpha Char.isUpper Char.isLower Char.isDigit at h
    simp only [ge_iff_le, Bool.or_eq_true, Bool.and_eq_true, decide_eq_true_eq,
      UInt32.le_iff_toNat_le] at h
    grind [Char.toNat_val]
  · decide
  · decide

/-- In ASCII, names have the characters that are expected in them. -/
theorem isPart_of_isName {cs : List Char} (h : L.isName cs = true) {c : Char} (hc : c ∈ cs)
    (hascii : c.toNat < 128) : Naming.isPart c = true := by
  cases cs with
  | nil => exact absurd hc List.not_mem_nil
  | cons d ds =>
    rw [isName, Bool.and_eq_true, List.all_eq_true] at h
    rcases List.mem_cons.1 hc with rfl | hc
    · have hstart := h.1
      rw [(L.ascii c hascii).1] at hstart
      exact isPart_of_isStart hstart
    · rw [← (L.ascii c hascii).2]
      exact h.2 c hc

theorem isName_of_isIdentifier {s : String} (h : Naming.isIdentifier s = true) :
    L.isName s.toList = true := by
  unfold Naming.isIdentifier at h
  split at h
  · cases h
  · next c cs hs =>
    rw [Bool.and_eq_true, List.all_eq_true] at h
    rw [hs, isName, Bool.and_eq_true, List.all_eq_true]
    constructor
    · rw [(L.ascii c (lt_of_isPart (isPart_of_isStart h.1))).1]
      exact h.1
    · intro d hd
      rw [(L.ascii d (lt_of_isPart (h.2 d hd))).2]
      exact h.2 d hd

theorem quoted?_escapeKey {cs : List Char} (h : ∀ c ∈ cs, c ≠ '\n' ∧ c ≠ '\r') :
    quoted? (escapeKey cs ++ ['\x27']) = some cs := by
  induction cs with
  | nil => rfl
  | cons c cs ih =>
    rw [List.forall_mem_cons] at h
    have hrest := ih h.2
    rw [escapeKey]
    split
    · next hc =>
      have hescaped : c = '\\' ∨ c = '\x27' := by simpa using hc
      rw [List.cons_append, List.cons_append, quoted?, if_neg (by decide), if_neg (by decide),
        if_pos rfl, if_pos hescaped, hrest]
      rfl
    · next hc =>
      have hplain : ¬ c = '\\' ∧ ¬ c = '\x27' := by simpa using hc
      rw [List.cons_append, quoted?.eq_def]
      dsimp only
      rw [if_neg hplain.2, if_neg (not_or.2 h.1), if_neg hplain.1, hrest]
      rfl

/-- A name without line breaks is declared under its key. -/
theorem keyName?_memberKey {name : String} (h : ∀ c ∈ name.toList, c ≠ '\n' ∧ c ≠ '\r') :
    L.keyName? (memberKey name).toList = some name.toList := by
  unfold memberKey keyName?
  split
  · next hname => rw [if_pos (isName_of_isIdentifier hname)]
  · rw [String.toList_ofList]
    have hquote : L.isName ('\x27' :: (escapeKey name.toList ++ ['\x27'])) = false := by
      rw [isName, (L.ascii '\x27' (by decide)).1]
      rfl
    rw [hquote]
    exact quoted?_escapeKey h

theorem mem_declared {parameters : List ActionParameter} {p : ActionParameter}
    (hp : p ∈ parameters) (h : ∀ c ∈ p.name.toList, c ≠ '\n' ∧ c ≠ '\r') :
    p.name.toList ∈ L.declared parameters :=
  List.mem_filterMap.2 ⟨_, List.mem_map_of_mem hp, keyName?_memberKey h⟩

theorem member?_eq_some {e name : List Char} :
    L.member? e = some name ↔ e = paramsDot ++ name ∧ L.isName name = true := by
  unfold member?
  split
  · next rest hrest =>
    rw [List.isPrefixOf?_eq_some_iff_append_eq] at hrest
    rw [← hrest, List.append_right_inj]
    split
    · next hname =>
      constructor
      · intro h
        cases h
        exact ⟨rfl, hname⟩
      · rintro ⟨rfl, -⟩
        rfl
    · next hname =>
      constructor
      · intro h
        cases h
      · rintro ⟨rfl, h⟩
        exact absurd h hname
  · next hnone =>
    constructor
    · intro h
      cases h
    · rintro ⟨rfl, -⟩
      have hprefix : paramsDot.isPrefixOf? (paramsDot ++ name) = some name :=
        List.isPrefixOf?_eq_some_iff_append_eq.2 rfl
      rw [hnone] at hprefix
      cases hprefix

end Lexicon

/-! ### Template literals -/

/-- A part of a template literal. -/
inductive LiteralPart where
  | char (c : Char)
  | expression (text : List Char)
  deriving DecidableEq, Repr

/-- What neither ends an expression nor begins a text, a comment or an escape in it. -/
def isPlain (c : Char) : Bool := !"\x7b\x7d\x22\x27\x60\\/".toList.contains c

/-- A plain text up to the next closing brace, and what follows that. -/
def upToBrace? : List Char → Option (List Char × List Char)
  | [] => none
  | c :: cs =>
    if c = '\x7d' then some ([], cs)
    else if isPlain c then (upToBrace? cs).map fun (text, rest) => (c :: text, rest)
    else none

theorem upToBrace?_eq_some {cs text rest : List Char} (h : upToBrace? cs = some (text, rest)) :
    cs = text ++ '\x7d' :: rest ∧ ∀ c ∈ text, isPlain c = true := by
  induction cs generalizing text with
  | nil => cases h
  | cons c cs ih =>
    rw [upToBrace?] at h
    split at h
    · next hc =>
      cases h
      exact ⟨by rw [hc]; rfl, fun c hc => absurd hc List.not_mem_nil⟩
    · split at h
      · next hc =>
        obtain ⟨⟨text', rest'⟩, hcs, heq⟩ := Option.map_eq_some_iff.1 h
        cases heq
        obtain ⟨rfl, hplain⟩ := ih hcs
        exact ⟨rfl, List.forall_mem_cons.2 ⟨hc, hplain⟩⟩
      · cases h

theorem upToBrace?_append {text : List Char} (h : ∀ c ∈ text, isPlain c = true)
    (rest : List Char) : upToBrace? (text ++ '\x7d' :: rest) = some (text, rest) := by
  induction text with
  | nil => rfl
  | cons c text ih =>
    rw [List.forall_mem_cons] at h
    have hc : c ≠ '\x7d' := by
      rintro rfl
      exact absurd h.1 (by decide)
    rw [List.cons_append, upToBrace?, if_neg hc, if_pos h.1, ih h.2]
    rfl

/-- The parts of a template literal without escapes, from behind the backtick that opens it, and
what follows the one that closes it. -/
def readLiteral? (cs : List Char) : Option (List LiteralPart × List Char) :=
  match cs with
  | [] => none
  | c :: cs =>
    if c = '\x60' then some ([], cs)
    else if c = '\\' then none
    else if c = '$' ∧ cs.head? = some '\x7b' then
      match _ : upToBrace? cs.tail with
      | some (text, rest) =>
        (readLiteral? rest).map fun (parts, after) => (.expression text :: parts, after)
      | none => none
    else (readLiteral? cs).map fun (parts, after) => (.char c :: parts, after)
termination_by cs.length
decreasing_by
  · have hsplit := congrArg List.length (upToBrace?_eq_some ‹_›).1
    simp only [List.length_append, List.length_cons, List.length_tail] at hsplit ⊢
    omega
  · simp

theorem readLiteral?_close (cs : List Char) : readLiteral? ('\x60' :: cs) = some ([], cs) := by
  rw [readLiteral?, if_pos rfl]

theorem readLiteral?_char {c : Char} {cs : List Char} (hclose : c ≠ '\x60') (hescape : c ≠ '\\')
    (hopen : ¬ (c = '$' ∧ cs.head? = some '\x7b')) :
    readLiteral? (c :: cs) =
      (readLiteral? cs).map fun (parts, after) => (.char c :: parts, after) := by
  rw [readLiteral?, if_neg hclose, if_neg hescape, if_neg hopen]

theorem readLiteral?_expression {text : List Char} (h : ∀ c ∈ text, isPlain c = true)
    (rest : List Char) : readLiteral? ('$' :: '\x7b' :: (text ++ '\x7d' :: rest)) =
      (readLiteral? rest).map fun (parts, after) => (.expression text :: parts, after) := by
  have htext := upToBrace?_append h rest
  rw [readLiteral?, if_neg (by decide), if_neg (by decide), if_pos ⟨rfl, rfl⟩, List.tail_cons]
  split
  · next text' rest' heq =>
    rw [htext] at heq
    cases heq
    rfl
  · next heq =>
    rw [htext] at heq
    cases heq

/-! ### Paths -/

/-- A part of a path. -/
inductive UrlPart where
  | char (c : Char)
  | placeholder (name : List Char)
  deriving DecidableEq, Repr

/-- The parts of a path, if no backtick or backslash stands in it, and only plain text between its
braces. -/
def urlParts? (cs : List Char) : Option (List UrlPart) :=
  match cs with
  | [] => some []
  | c :: cs =>
    if c = '\x60' ∨ c = '\\' then none
    else if c = '\x7b' then
      match _ : upToBrace? cs with
      | some (name, rest) => (urlParts? rest).map (.placeholder name :: ·)
      | none => none
    else (urlParts? cs).map (.char c :: ·)
termination_by cs.length
decreasing_by
  · have hsplit := congrArg List.length (upToBrace?_eq_some ‹_›).1
    simp only [List.length_append, List.length_cons] at hsplit ⊢
    omega
  · simp

/-- What a part of a path becomes. -/
def UrlPart.literal : UrlPart → LiteralPart
  | .char c => .char c
  | .placeholder name => .expression (paramsDot ++ name)

/-- The characters that are written for those of a path. -/
def urlChars : List Char → List Char
  | [] => []
  | c :: cs => if c = '\x7b' then '$' :: '\x7b' :: (paramsDot ++ urlChars cs) else c :: urlChars cs

theorem toList_urlLiteral (url : String) : (urlLiteral url).toList = urlChars url.toList := by
  unfold urlLiteral
  rw [String.toList_ofList]
  induction url.toList with
  | nil => rfl
  | cons c cs ih =>
    rw [List.flatMap_cons, ih, urlChars]
    split
    · simp [paramsDot]
    · rfl

theorem urlChars_append (cs ds : List Char) : urlChars (cs ++ ds) = urlChars cs ++ urlChars ds := by
  induction cs with
  | nil => rfl
  | cons c cs ih =>
    rw [List.cons_append, urlChars, urlChars, ih]
    split
    · simp only [List.cons_append, List.append_assoc]
    · rfl

theorem urlChars_plain {cs : List Char} (h : ∀ c ∈ cs, isPlain c = true) : urlChars cs = cs := by
  induction cs with
  | nil => rfl
  | cons c cs ih =>
    rw [List.forall_mem_cons] at h
    have hc : c ≠ '\x7b' := by
      rintro rfl
      exact absurd h.1 (by decide)
    rw [urlChars, if_neg hc, ih h.2]

/-- What is written for a path never begins with an opening brace. -/
theorem head?_urlChars (cs rest : List Char) :
    (urlChars cs ++ '\x60' :: rest).head? ≠ some '\x7b' := by
  cases cs with
  | nil => exact fun h => absurd (Option.some.inj h) (by decide)
  | cons c cs =>
    rw [urlChars]
    split
    · exact fun h => absurd (Option.some.inj h) (by decide)
    · next hc => exact fun h => hc (Option.some.inj h)

/-- The literal that is written for a path is read as the parts of the path. -/
theorem readLiteral?_urlChars {cs : List Char} {parts : List UrlPart}
    (h : urlParts? cs = some parts) (rest : List Char) :
    readLiteral? (urlChars cs ++ '\x60' :: rest) = some (parts.map UrlPart.literal, rest) := by
  fun_induction urlParts? cs generalizing parts with
  | case1 =>
    cases h
    exact readLiteral?_close rest
  | case2 c cs hc => cases h
  | case3 cs name after htext _ ih =>
    obtain ⟨parts', hparts, rfl⟩ := Option.map_eq_some_iff.1 h
    obtain ⟨rfl, hplain⟩ := upToBrace?_eq_some htext
    have hexpression : ∀ c ∈ paramsDot ++ name, isPlain c = true :=
      List.forall_mem_append.2 ⟨List.all_eq_true.1 (by decide), hplain⟩
    have hwritten : urlChars ('\x7b' :: (name ++ '\x7d' :: after)) ++ '\x60' :: rest =
        '$' :: '\x7b' :: (paramsDot ++ name ++ '\x7d' :: (urlChars after ++ '\x60' :: rest)) := by
      rw [urlChars, if_pos rfl, urlChars_append, urlChars_plain hplain, urlChars,
        if_neg (by decide)]
      simp only [List.cons_append, List.append_assoc]
    rw [hwritten, readLiteral?_expression hexpression, ih hparts]
    rfl
  | case4 => cases h
  | case5 c cs hc hbrace ih =>
    obtain ⟨parts', hparts, rfl⟩ := Option.map_eq_some_iff.1 h
    rw [not_or] at hc
    rw [urlChars, if_neg hbrace, List.cons_append,
      readLiteral?_char hc.1 hc.2 fun h => head?_urlChars cs rest h.2, ih hparts]
    rfl

/-- The literal for a path without backticks, backslashes and odd braces. It is read as the parts of
the path. For a placeholder with the name of a parameter there is an access to the member that the
type of `params` declares under that name if and only if it is a name of the language. -/
theorem url_reads_parameter_iff (L : Lexicon) (start : String) (a : Action) {parts : List UrlPart}
    (hurl : urlParts? a.url.toList = some parts) :
    "      url: `" ++ urlLiteral a.url ++ "`," ∈ actionLines start a ∧
    readLiteral? (urlLiteral a.url ++ "`,").toList = some (parts.map UrlPart.literal, [',']) ∧
    ∀ p ∈ a.parameters, p.isPath = true → .placeholder p.name.toList ∈ parts →
      ((∃ e, .expression e ∈ parts.map UrlPart.literal ∧ L.member? e = some p.name.toList ∧
        p.name.toList ∈ L.declared a.parameters) ↔ L.isName p.name.toList = true) := by
  refine ⟨?_, ?_, fun p hp _ hplace => ⟨?_, ?_⟩⟩
  · simp [actionLines]
  · rw [String.toList_append, toList_urlLiteral]
    exact readLiteral?_urlChars hurl [',']
  · rintro ⟨e, -, he, -⟩
    exact (Lexicon.member?_eq_some.1 he).2
  · intro hname
    have hbreaks : ∀ c ∈ p.name.toList, c ≠ '\n' ∧ c ≠ '\r' := by
      intro c hc
      constructor <;> rintro rfl <;>
        exact absurd (Lexicon.isPart_of_isName hname hc (by decide)) (by decide)
    exact ⟨_, List.mem_map_of_mem hplace, Lexicon.member?_eq_some.2 ⟨rfl, hname⟩,
      Lexicon.mem_declared hp hbreaks⟩

/-- An action with two parameters in its path, of which only one is called by a name of the
language. -/
def toyAction : Action where
  url := "/pets/\x7bpetId\x7d/toys/\x7btoy-id\x7d"
  method := .get
  name := "ToyAsync"
  parameters := [{ name := "petId", required := true, types := ["string"], isPath := true },
    { name := "toy-id", required := true, types := ["string"], isPath := true }]
  returnType := "Toy"

def toyParts : List UrlPart :=
  "/pets/".toList.map .char ++ [.placeholder "petId".toList] ++
    "/toys/".toList.map .char ++ [.placeholder "toy-id".toList]

theorem urlParts?_toyAction : urlParts? toyAction.url.toList = some toyParts := by
  decide +kernel

/-- There is an access to the one member and none to the other. -/
theorem url_reads_parameter_iff_toyAction :
    "      url: `/pets/$\x7bparams.petId\x7d/toys/$\x7bparams.toy-id\x7d`," ∈
      actionLines "static async" toyAction ∧
    (∃ e, .expression e ∈ toyParts.map UrlPart.literal ∧
      Lexicon.asciiOnly.member? e = some "petId".toList ∧
      "petId".toList ∈ Lexicon.asciiOnly.declared toyAction.parameters) ∧
    ¬ ∃ e, .expression e ∈ toyParts.map UrlPart.literal ∧
      Lexicon.asciiOnly.member? e = some "toy-id".toList ∧
      "toy-id".toList ∈ Lexicon.asciiOnly.declared toyAction.parameters := by
  have hurl : "      url: `" ++ urlLiteral toyAction.url ++ "`," =
      "      url: `/pets/$\x7bparams.petId\x7d/toys/$\x7bparams.toy-id\x7d`," := by
    decide +kernel
  obtain ⟨hline, -, hiff⟩ :=
    url_reads_parameter_iff Lexicon.asciiOnly "static async" toyAction urlParts?_toyAction
  rw [hurl] at hline
  have hpet := hiff _ List.mem_cons_self rfl (by decide +kernel)
  have htoy := hiff _ (List.mem_cons_of_mem _ List.mem_cons_self) rfl (by decide +kernel)
  refine ⟨hline, hpet.2 (by decide +kernel), fun h => ?_⟩
  exact absurd (htoy.1 h) (by decide +kernel)

/-- The member `toy-id` is declared, but nothing in the literal is an access to it, whatever names
beyond ASCII there may be. -/
theorem toy_not_accessed :
    arguments toyAction = "params: \x7b\npetId: string;\n'toy-id': string;\n\x7d, " ∧
      urlLiteral toyAction.url = "/pets/$\x7bparams.petId\x7d/toys/$\x7bparams.toy-id\x7d" ∧
      ¬ ∃ L : Lexicon, ∀ (a : Action) (parts : List UrlPart),
        urlParts? a.url.toList = some parts →
          ∀ p ∈ a.parameters, p.isPath = true → .placeholder p.name.toList ∈ parts →
            ∃ e, .expression e ∈ parts.map UrlPart.literal ∧ L.member? e = some p.name.toList := by
  refine ⟨by decide +kernel, by decide +kernel, ?_⟩
  rintro ⟨L, hclaim⟩
  obtain ⟨e, -, he⟩ := hclaim toyAction toyParts urlParts?_toyAction _
    (List.mem_cons_of_mem _ List.mem_cons_self) rfl (by decide +kernel)
  have hname := (Lexicon.member?_eq_some.1 he).2
  have hdash : '-' ∈ "toy-id".toList := by decide
  exact absurd (Lexicon.isPart_of_isName hname hdash (by decide)) (by decide)

end TypedClient.Code

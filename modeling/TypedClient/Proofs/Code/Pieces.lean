import Mathlib.Data.List.Flatten
import TypedClient.Code.Presets

/-! Generated code as comments and the code between them. A comment is written by its body alone, so
what opens and what closes it is told apart from what stands in it. -/

namespace TypedClient.Code

/-- A part of generated code. -/
inductive Piece where
  | code (text : String)
  | comment (body : String)
  deriving DecidableEq, Repr

def Piece.text : Piece → String
  | .code text => text
  | .comment body => "/**" ++ body ++ "*/"

/-- What is written for pieces. -/
def printed (ps : List Piece) : String := String.join (ps.map Piece.text)

theorem printed_cons (p : Piece) (ps : List Piece) : printed (p :: ps) = p.text ++ printed ps := by
  rw [printed, List.map_cons, String.join_cons]
  rfl

theorem printed_append (ps qs : List Piece) : printed (ps ++ qs) = printed ps ++ printed qs := by
  rw [printed, List.map_append, String.join_append]
  rfl

theorem lines_cons (l : String) (ls : List String) : lines (l :: ls) = l ++ "\n" ++ lines ls := by
  rw [lines, List.map_cons, String.join_cons]
  rfl

theorem lines_append (ls ms : List String) : lines (ls ++ ms) = lines ls ++ lines ms := by
  rw [lines, List.map_append, String.join_append]
  rfl

/-! ### Pieces of lines -/

/-- The pieces are written as these lines. -/
def Writes (ps : List Piece) (ls : List String) : Prop := printed ps = lines ls

theorem Writes.append {ps qs : List Piece} {ls ms : List String} (h : Writes ps ls)
    (h' : Writes qs ms) : Writes (ps ++ qs) (ls ++ ms) := by
  rw [Writes, printed_append, lines_append, h, h']

theorem Writes.flatMap {α : Type} {f : α → List Piece} {g : α → List String}
    (h : ∀ x, Writes (f x) (g x)) (xs : List α) : Writes (xs.flatMap f) (xs.flatMap g) := by
  induction xs with
  | nil => rfl
  | cons x xs ih => exact (h x).append ih

/-- Lines without comments. -/
def codeLines (ls : List String) : List Piece := ls.map fun l => .code (l ++ "\n")

theorem writes_codeLines (ls : List String) : Writes (codeLines ls) ls := by
  induction ls with
  | nil => rfl
  | cons l ls ih =>
    rw [Writes, lines_cons, ← ih]
    exact printed_cons _ _

/-- A description as a comment of its own. -/
def docPieces (indent : String) (description : Option String) : List Piece :=
  (described description).toList.flatMap fun d =>
    [.code indent, .comment (" " ++ d ++ " "), .code "\n"]

theorem writes_docPieces (indent : String) (description : Option String) :
    Writes (docPieces indent description) (docLines indent description) := by
  unfold docPieces docLines
  cases described description with
  | none => rfl
  | some d => simp [Writes, printed, lines, Piece.text, String.join_cons, ← String.toList_inj]

/-! ### Object types -/

def memberPieces (m : Member) : List Piece :=
  (match described m.description with
    | some d => [.comment (" " ++ singleLine d ++ " "), .code "\n"]
    | none => []) ++
  [.code (memberKey m.name ++ (if m.required then "" else "?") ++ ": " ++ typeUnion m.types ++
    (match m.value with
      | some v => " = " ++ v
      | none => ""))]

theorem printed_memberPieces (m : Member) : printed (memberPieces m) = m.text := by
  unfold memberPieces Member.text
  cases described m.description with
  | none => cases m.value <;> simp [printed, Piece.text]
  | some d =>
    cases m.value <;> simp [printed, Piece.text, String.join_cons, ← String.toList_inj]

def objectPieces (ms : List Member) : List Piece :=
  if ms.isEmpty then [.code "any"]
  else [.code "\x7b\n"] ++ [Piece.code ";\n"].intercalate (ms.map memberPieces) ++
    [.code ";\n\x7d"]

theorem printed_intercalate (separator : String) (parts : List (List Piece)) :
    printed ([Piece.code separator].intercalate parts) =
      String.intercalate separator (parts.map printed) := by
  match parts with
  | [] => rfl
  | [part] => simp [List.intercalate]
  | first :: second :: rest =>
    rw [List.intercalate_cons_cons, printed_append, printed_append,
      printed_intercalate separator (second :: rest)]
    simp [printed, Piece.text, String.intercalate_cons_cons]

theorem printed_objectPieces (ms : List Member) : printed (objectPieces ms) = objectType ms := by
  unfold objectPieces objectType
  split
  · rfl
  · rw [printed_append, printed_append, printed_intercalate, List.map_map]
    have hmembers : printed ∘ memberPieces = Member.text := funext printed_memberPieces
    rw [hmembers]
    rfl

/-! ### Models -/

def propertyPieces (isClass : Bool) (p : ModelProperty) : List Piece :=
  docPieces "  " p.description ++ codeLines [propertyLine isClass p]

def declarationPieces (m : ModelEntry) : List Piece :=
  match m.definition with
  | .enum =>
    codeLines (["export enum " ++ m.name ++ " \x7b"] ++ m.properties.map enumLine ++ ["\x7d"])
  | .type =>
    [.code ("export type " ++ m.name ++ " = ")] ++
      objectPieces (m.properties.map (Member.ofProperty false)) ++ [.code ";\n"]
  | .class | .interface =>
    codeLines [headLine m] ++ m.properties.flatMap (propertyPieces (m.definition == .class)) ++
      codeLines ["\x7d"]

theorem writes_declarationPieces (m : ModelEntry) :
    Writes (declarationPieces m) (declaration m) := by
  have hproperties : ∀ isClass p, Writes (propertyPieces isClass p) (propertyLines isClass p) :=
    fun isClass p => (writes_docPieces "  " p.description).append (writes_codeLines _)
  have hbody : ∀ isClass, Writes (codeLines [headLine m] ++
      m.properties.flatMap (propertyPieces isClass) ++ codeLines ["\x7d"])
      ([headLine m] ++ m.properties.flatMap (propertyLines isClass) ++ ["\x7d"]) :=
    fun isClass => ((writes_codeLines _).append (Writes.flatMap (hproperties isClass) _)).append
      (writes_codeLines _)
  unfold declarationPieces declaration
  cases m.definition with
  | enum => exact writes_codeLines _
  | type =>
    rw [Writes, printed_append, printed_append, printed_objectPieces]
    simp [printed, lines, Piece.text, ← String.toList_inj]
  | «class» => exact hbody true
  | interface => exact hbody false

def modelPieces (m : ModelEntry) : List Piece :=
  codeLines (m.dependencies.map importLine ++ [""]) ++ docPieces "" m.description ++
    declarationPieces m

theorem printed_modelPieces (m : ModelEntry) : printed (modelPieces m) = model m :=
  ((writes_codeLines _).append (writes_docPieces "" m.description)).append
    (writes_declarationPieces m)

/-! ### Clients -/

def argumentPieces (a : Action) : List Piece :=
  (if a.parameters.isEmpty then []
    else [.code "params: "] ++ objectPieces (a.parameters.map Member.ofParameter) ++
      [.code ", "]) ++
  [.code (match described a.requestBody with
    | some body => "body: " ++ body ++ ", "
    | none => "")]

theorem printed_argumentPieces (a : Action) : printed (argumentPieces a) = arguments a := by
  unfold argumentPieces arguments
  rw [printed_append]
  split
  · cases described a.requestBody <;> simp [printed, Piece.text]
  · rw [printed_append, printed_append, printed_objectPieces]
    cases described a.requestBody <;> simp [printed, Piece.text]

/-- What the comment of an action says. -/
def actionBody (a : Action) : String :=
  "\n" ++ lines (["   * " ++ a.method.name ++ " " ++ a.url] ++
    (described a.description).toList.map ("   * " ++ ·)) ++ "   "

/-- The lines of an action after its arguments. -/
def requestLines (a : Action) : List String :=
  ["    return apiOptions.request(\x7b",
    "      method: '" ++ a.method.name ++ "',",
    "      url: `" ++ urlLiteral a.url ++ "`,"] ++
  (if a.parameters.isEmpty then [] else ["      params,"]) ++
  (if hasBody a then ["      data: body,"] else []) ++
  ["      responseType: '" ++ a.responseType.name ++ "',",
    "      ...options,",
    "    \x7d);",
    "  \x7d",
    ""]

def actionPieces (start : String) (a : Action) : List Piece :=
  [.code "  ", .comment (actionBody a), .code ("\n  " ++ start ++ " " ++ a.name ++ "(")] ++
    argumentPieces a ++
    [.code ("options?: AxiosRequestConfig): Promise<" ++ a.returnType ++ "> \x7b\n")] ++
    codeLines (requestLines a)

theorem writes_actionPieces (start : String) (a : Action) :
    Writes (actionPieces start a) (actionLines start a) := by
  unfold actionPieces actionLines
  rw [Writes, printed_append, printed_append, printed_append, printed_argumentPieces,
    writes_codeLines]
  simp [printed, Piece.text, actionBody, requestLines, lines, String.join_cons,
    String.join_append, ← String.toList_inj]

def classPieces (indent : String) (c : Controller) : List Piece :=
  docPieces indent c.description ++ codeLines [indent ++ "export class " ++ c.name ++ " \x7b"] ++
    c.actions.flatMap (actionPieces "static async") ++ codeLines [indent ++ "\x7d"]

theorem writes_classPieces (indent : String) (c : Controller) :
    Writes (classPieces indent c) (classLines indent c) :=
  (((writes_docPieces indent c.description).append (writes_codeLines _)).append
    (Writes.flatMap (writes_actionPieces _) _)).append (writes_codeLines _)

def namespacePieces (n : ClientNamespace) : List Piece :=
  codeLines [""] ++ docPieces "" n.description ++
    codeLines ["export namespace " ++ n.name ++ " \x7b"] ++
    n.controllers.flatMap (classPieces "  ") ++ codeLines ["\x7d"]

theorem writes_namespacePieces (n : ClientNamespace) :
    Writes (namespacePieces n) (namespaceLines n) :=
  ((((writes_codeLines _).append (writes_docPieces "" n.description)).append
    (writes_codeLines _)).append (Writes.flatMap (writes_classPieces _) _)).append
    (writes_codeLines _)

def clientPieces (d : ApiDefinition) : List Piece :=
  codeLines (preamble ++ importLines d.dependencies ++ requestClass) ++
    d.namespaces.flatMap namespacePieces ++
    d.controllers.flatMap (fun c => codeLines [""] ++ classPieces "" c) ++
    d.actions.flatMap (fun a => codeLines [""] ++ actionPieces "export async function" a)

theorem printed_clientPieces (d : ApiDefinition) : printed (clientPieces d) = client d := by
  have hclass : ∀ c : Controller, Writes (codeLines [""] ++ classPieces "" c)
      ("" :: classLines "" c) :=
    fun c => (writes_codeLines [""]).append (writes_classPieces "" c)
  have haction : ∀ a : Action, Writes (codeLines [""] ++ actionPieces "export async function" a)
      ("" :: actionLines "export async function" a) :=
    fun a => (writes_codeLines [""]).append (writes_actionPieces _ a)
  exact (((writes_codeLines _).append (Writes.flatMap writes_namespacePieces _)).append
    (Writes.flatMap hclass _)).append (Writes.flatMap haction _)

end TypedClient.Code

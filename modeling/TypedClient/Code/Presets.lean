import TypedClient.Code.Member

/-! The code that is made without templates. That of a model is its imports, its description and its
declaration; that of a client is a function that sends requests, then namespaces, classes and
functions for the actions. -/

namespace TypedClient.Code

/-! ### Models -/

def lines (ls : List String) : String := String.join (ls.map (· ++ "\n"))

/-- A description as a comment of its own. -/
def docLines (indent : String) (description : Option String) : List String :=
  (described description).toList.map fun d => indent ++ "/** " ++ d ++ " */"

def importLine (d : Dependency) : String :=
  "import \x7b " ++ d.modules ++ " \x7d from './" ++ d.id ++ "';"

def enumLine (p : ModelProperty) : String :=
  "  " ++ memberKey p.name ++ " = " ++ p.value ++ ","

/-- A property of an interface or, with its value, of a class. -/
def propertyLine (isClass : Bool) (p : ModelProperty) : String :=
  "  " ++ memberKey p.name ++ (if p.required then "" else "?") ++ ": " ++ typeUnion p.types ++
    (if isClass then " = " ++ p.value else "") ++ ";"

def propertyLines (isClass : Bool) (p : ModelProperty) : List String :=
  docLines "  " p.description ++ [propertyLine isClass p]

/-- The head of a class or interface. -/
def headLine (m : ModelEntry) : String :=
  "export " ++ m.definition.name ++ " " ++ m.name ++
    (match described m.extends with
      | some base => " extends " ++ base
      | none => "") ++ " \x7b"

def declaration (m : ModelEntry) : List String :=
  match m.definition with
  | .enum => ["export enum " ++ m.name ++ " \x7b"] ++ m.properties.map enumLine ++ ["\x7d"]
  | .type =>
    ["export type " ++ m.name ++ " = " ++
      objectType (m.properties.map (Member.ofProperty false)) ++ ";"]
  | .class | .interface =>
    [headLine m] ++ m.properties.flatMap (propertyLines (m.definition == .class)) ++ ["\x7d"]

/-- The code of one model. -/
def model (m : ModelEntry) : String :=
  lines (m.dependencies.map importLine ++ [""] ++ docLines "" m.description ++ declaration m)

/-! ### Clients -/

def preamble : List String :=
  ["import axios from 'axios';",
    "import type \x7b AxiosRequestConfig, AxiosResponse \x7d from 'axios';"]

def importLines (dependencies : List ClientDependency) : List String :=
  if dependencies.isEmpty then []
  else ["import type \x7b"] ++ dependencies.map (fun d => "  " ++ d.modules ++ ",") ++
    ["\x7d from '../models';"]

def requestClass : List String :=
  ["",
    "export class apiOptions \x7b",
    "  static async request<TData, TResult>(options: AxiosRequestConfig<TData>): " ++
      "Promise<TResult> \x7b",
    "    return axios.request<TData, AxiosResponse<TResult>>(options)" ++
      ".then((res) => res.data);",
    "  \x7d",
    "\x7d"]

/-- A path as the inside of a template literal, its parameters read from `params`. -/
def urlLiteral (url : String) : String :=
  String.ofList (url.toList.flatMap fun c => if c = '{' then "$\x7bparams.".toList else [c])

def hasBody (a : Action) : Bool := (described a.requestBody).isSome

/-- The parameters of an action's function before its options. -/
def arguments (a : Action) : String :=
  (if a.parameters.isEmpty then ""
    else "params: " ++ objectType (a.parameters.map Member.ofParameter) ++ ", ") ++
  (match described a.requestBody with
    | some body => "body: " ++ body ++ ", "
    | none => "")

def actionLines (start : String) (a : Action) : List String :=
  ["  /**", "   * " ++ a.method.name ++ " " ++ a.url] ++
    ((described a.description).toList.map ("   * " ++ ·)) ++
    ["   */",
      "  " ++ start ++ " " ++ a.name ++ "(" ++ arguments a ++
        "options?: AxiosRequestConfig): Promise<" ++ a.returnType ++ "> \x7b",
      "    return apiOptions.request(\x7b",
      "      method: '" ++ a.method.name ++ "',",
      "      url: `" ++ urlLiteral a.url ++ "`,"] ++
    (if a.parameters.isEmpty then [] else ["      params,"]) ++
    (if hasBody a then ["      data: body,"] else []) ++
    ["      responseType: '" ++ a.responseType.name ++ "',",
      "      ...options,",
      "    \x7d);",
      "  \x7d",
      ""]

def classLines (indent : String) (c : Controller) : List String :=
  docLines indent c.description ++ [indent ++ "export class " ++ c.name ++ " \x7b"] ++
    c.actions.flatMap (actionLines "static async") ++ [indent ++ "\x7d"]

def namespaceLines (n : ClientNamespace) : List String :=
  [""] ++ docLines "" n.description ++ ["export namespace " ++ n.name ++ " \x7b"] ++
    n.controllers.flatMap (classLines "  ") ++ ["\x7d"]

/-- The code of one client. -/
def client (d : ApiDefinition) : String :=
  lines (preamble ++ importLines d.dependencies ++ requestClass ++
    d.namespaces.flatMap namespaceLines ++
    d.controllers.flatMap (fun c => "" :: classLines "" c) ++
    d.actions.flatMap (fun a => "" :: actionLines "export async function" a))

end TypedClient.Code

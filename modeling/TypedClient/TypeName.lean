import TypedClient.Failure

/-! Names of types such as `Shop.Page<Item,Key>`. Angle and square brackets nest alike; a dot or a
comma separates only where no bracket is open. A name is read whenever its brackets match. As trees,
references are written with dots between the parts of the scope and the name and with commas between
the arguments in angle brackets, where blanks may stand around an argument. -/

namespace TypedClient

/-- A name taken apart. `fullName` is the text that was read. -/
structure TypeName where
  name : String
  scope : String
  fullName : String
  isGeneric : Bool
  arguments : List TypeName
  deriving Repr, Inhabited

namespace TypeName

def isOpener (c : Char) : Bool := c = '<' || c = '['

def isCloser (c : Char) : Bool := c = '>' || c = ']'

/-- Whether brackets match when `depth` of them are open: none is closed too early, and all are
closed at the end. -/
def balancedFrom : Nat → List Char → Bool
  | depth, [] => depth == 0
  | depth, c :: cs =>
    if isOpener c then balancedFrom (depth + 1) cs
    else if isCloser c then
      match depth with
      | 0 => false
      | depth + 1 => balancedFrom depth cs
    else balancedFrom depth cs

def balanced (cs : List Char) : Bool := balancedFrom 0 cs

/-- The number of open brackets after a character. -/
def depthAfter (depth : Int) (c : Char) : Int :=
  if isOpener c then depth + 1 else if isCloser c then depth - 1 else depth

/-- The texts between the commas that stand outside all brackets. -/
def splitCommas : Int → List Char → List (List Char)
  | _, [] => [[]]
  | depth, c :: cs =>
    if c = ',' && depth == 0 then [] :: splitCommas depth cs
    else match splitCommas (depthAfter depth c) cs with
      | [] => [[c]]
      | p :: ps => (c :: p) :: ps

/-- Cuts a reversed text at its first dot outside all brackets: what stands before the dot, and
what after it. -/
def cutDot : Int → List Char → Option (List Char × List Char)
  | _, [] => none
  | depth, c :: cs =>
    if c = '.' && depth == 0 then some ([], cs)
    else (cutDot (depthAfter depth c) cs).map fun (before, after) => (c :: before, after)

/-- Everything before the last dot outside all brackets, and everything after it. -/
def splitScope (cs : List Char) : List Char × List Char :=
  match cutDot 0 cs.reverse with
  | some (before, after) => (after.reverse, before.reverse)
  | none => ([], cs)

/-- A name without its arguments. A bracket at the very beginning does not start them. -/
def headOf (cs : List Char) : List Char :=
  match cs.takeWhile (· != '<') with
  | [] => cs
  | head => head

/-- What stands between the first angle bracket and the last character. -/
def inner (cs : List Char) : List Char := ((cs.dropWhile (· != '<')).drop 1).dropLast

/-- The argument texts of a name that ends in an angle bracket, without blanks around them. -/
def argumentTexts (cs : List Char) : List (List Char) :=
  if cs.getLast? = some '>' && cs.contains '<' then
    ((splitCommas 0 (inner cs)).map Text.trimChars).filter (!·.isEmpty)
  else []

/-! ### Arguments are shorter than the name -/

theorem length_dropWhile_le {α : Type} (p : α → Bool) (l : List α) :
    (l.dropWhile p).length ≤ l.length := by
  induction l with
  | nil => simp
  | cons a l ih =>
    rw [List.dropWhile_cons]
    split
    · exact Nat.le_succ_of_le ih
    · exact Nat.le_refl _

theorem length_trimChars_le (cs : List Char) : (Text.trimChars cs).length ≤ cs.length := by
  have h := length_dropWhile_le Text.isBlank (cs.dropWhile Text.isBlank).reverse
  have h' := length_dropWhile_le Text.isBlank cs
  simp only [Text.trimChars, List.length_reverse] at *
  omega

theorem length_le_of_mem_splitCommas {depth : Int} {cs p : List Char}
    (h : p ∈ splitCommas depth cs) : p.length ≤ cs.length := by
  induction cs generalizing depth p with
  | nil => simp [splitCommas] at h; simp [h]
  | cons c cs ih =>
    rw [splitCommas] at h
    split at h
    · rcases List.mem_cons.1 h with rfl | h
      · simp
      · have := ih h; simp; omega
    · split at h
      · simp at h; simp [h]
      · next q qs hq =>
        rcases List.mem_cons.1 h with rfl | h
        · have := @ih (depthAfter depth c) q (by simp [hq]); simp; omega
        · have := @ih (depthAfter depth c) p (by simp [hq, h]); simp; omega

theorem length_inner_lt {cs : List Char} (h : cs ≠ []) : (inner cs).length < cs.length := by
  have h' := length_dropWhile_le (· != '<') cs
  have : cs.length ≠ 0 := by simpa using h
  simp only [inner, List.length_dropLast, List.length_drop]
  omega

theorem length_lt_of_mem_argumentTexts {cs a : List Char} (h : a ∈ argumentTexts cs) :
    a.length < cs.length := by
  unfold argumentTexts at h
  split at h
  · next hc =>
    obtain ⟨p, hp, rfl⟩ := List.mem_map.1 (List.mem_filter.1 h).1
    have hne : cs ≠ [] := by rintro rfl; simp at hc
    have h₁ := length_trimChars_le p
    have h₂ := length_le_of_mem_splitCommas hp
    have h₃ := length_inner_lt hne
    omega
  · simp at h

/-! ### Reading -/

/-- Takes a name apart, arguments included. -/
def parseChars (cs : List Char) : Except Failure TypeName :=
  if balanced cs then do
    let arguments ← (argumentTexts cs).attach.mapM fun a => parseChars a.1
    pure {
      name := String.ofList (headOf (splitScope cs).2)
      scope := String.ofList (splitScope cs).1
      fullName := String.ofList cs
      isGeneric := cs.getLast? = some '>'
      arguments }
  else .error (.unbalancedName (String.ofList cs))
termination_by cs.length
decreasing_by exact length_lt_of_mem_argumentTexts a.2

theorem parseChars_eq (cs : List Char) : parseChars cs =
    if balanced cs then do
      let arguments ← (argumentTexts cs).mapM parseChars
      pure {
        name := String.ofList (headOf (splitScope cs).2)
        scope := String.ofList (splitScope cs).1
        fullName := String.ofList cs
        isGeneric := cs.getLast? = some '>'
        arguments }
    else .error (.unbalancedName (String.ofList cs)) := by
  rw [parseChars, List.mapM_subtype fun _ _ => rfl, List.unattach_attach]

def parse (s : String) : Except Failure TypeName := parseChars s.toList

/-- The first part of the scope. -/
def rootScope (t : TypeName) : String :=
  String.ofList ((Text.pieces (· == '.') t.scope.toList).head?.getD [])

end TypeName

/-- A reference to a type: the parts of its scope, its name and its arguments, each with the blanks
before and after it. -/
inductive TypeReference where
  | node (scope : List (List Char)) (name : List Char)
      (arguments : List (List Char × TypeReference × List Char))
  deriving Inhabited

namespace TypeReference

/-! ### Parts of a reference -/

/-- Whether a text can be a part of a reference: it is not empty, has neither brackets nor dots nor
commas, and no blanks around it. -/
def isPart (cs : List Char) : Bool :=
  !cs.isEmpty && Text.trimChars cs == cs &&
    cs.all fun c => !TypeName.isOpener c && !TypeName.isCloser c && c != '.' && c != ','

mutual

/-- Whether a reference is made of parts, with nothing but blanks around its arguments. -/
def wellFormed : TypeReference → Bool
  | .node scope name arguments => scope.all isPart && isPart name && wellFormedAll arguments

def wellFormedAll : List (List Char × TypeReference × List Char) → Bool
  | [] => true
  | (before, t, after) :: rest =>
    before.all Text.isBlank && after.all Text.isBlank && wellFormed t && wellFormedAll rest

end

/-! ### Writing a reference -/

/-- A name behind the parts of its scope. -/
def qualified (scope : List (List Char)) (name : List Char) : List Char :=
  scope.flatMap (· ++ ['.']) ++ name

mutual

/-- A reference as it is written. Without arguments there are no brackets. -/
def print : TypeReference → List Char
  | .node scope name arguments =>
    qualified scope name ++
      (if arguments.isEmpty then [] else '<' :: (printArguments arguments ++ ['>']))

def printArguments : List (List Char × TypeReference × List Char) → List Char
  | [] => []
  | [(before, t, after)] => before ++ print t ++ after
  | (before, t, after) :: rest => before ++ print t ++ after ++ ',' :: printArguments rest

end

end TypeReference

end TypedClient

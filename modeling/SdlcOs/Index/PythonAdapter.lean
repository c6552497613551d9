/-
What the index reads off the syntax tree of a Python file
(adapters/python_adapter.py).

# Trees

A node has its type, its text, where it starts and the row it ends on,
and its children, each with the field it fills, if it fills one. The
parser numbers the nodes. Of the grammar, `Node.grammatical` says what the
walker relies on: which nodes fill a field once at most, that a definition
has a name, and the types of a body, of a call's arguments and of an
attribute's name.

# The walker

A chain is kept as the nodes whose texts it has. `str.isupper` is a table
of the platform. A definition without a name raises.
-/
import SdlcOs.Index.Resolve

namespace SdlcOs.Index

open Data (Dict)

-- ==== nodes

/-- A node of a syntax tree. -/
inductive Node : Type where
  | mk (id : Nat) (type text : String) (row column endRow : Nat)
      (children : List (Option String × Node))

/-- A node with the field of its parent that it fills. -/
abbrev Child : Type := Option String × Node

namespace Node

def id : Node → Nat
  | mk id _ _ _ _ _ _ => id

def type : Node → String
  | mk _ type _ _ _ _ _ => type

def text : Node → String
  | mk _ _ text _ _ _ _ => text

/-- `start_point.row`. -/
def row : Node → Nat
  | mk _ _ _ row _ _ _ => row

/-- `start_point.column`. -/
def column : Node → Nat
  | mk _ _ _ _ column _ _ => column

/-- `end_point.row`. -/
def endRow : Node → Nat
  | mk _ _ _ _ _ endRow _ => endRow

/-- The children with their fields. -/
def fields : Node → List Child
  | mk _ _ _ _ _ _ children => children

/-- `children`. -/
def children (n : Node) : List Node := n.fields.map Prod.snd

mutual

/-- The numbers of a node and of all nodes below it. -/
def ids : Node → List Nat
  | mk id _ _ _ _ _ children => id :: idsAll children

def idsAll : List Child → List Nat
  | [] => []
  | (_, n) :: rest => ids n ++ idsAll rest

end

/-- The first child that fills a field. -/
def childIn (field : String) : List Child → Option Node
  | [] => none
  | (f, n) :: rest => if f = some field then some n else childIn field rest

/-- `child_by_field_name`. -/
def childByFieldName (n : Node) (field : String) : Option Node :=
  childIn field n.fields

/-- The first child of a type. -/
def childOfType (n : Node) (type : String) : Option Node :=
  n.children.find? (·.type = type)

-- ==== grammar

/-- The nodes that fill each of their fields once at most. -/
def fieldTypes : List String :=
  ["function_definition", "class_definition", "assignment",
    "default_parameter", "typed_default_parameter", "typed_parameter",
    "keyword_argument", "call", "attribute"]

/-- The nodes that have a name. -/
def namedTypes : List String := ["function_definition", "class_definition"]

/-- What the grammar says of a child of a node. -/
def childOk (type : String) (c : Child) : Bool :=
  (c.1 ≠ some "body" || type ∉ namedTypes || c.2.type = "block") &&
  (c.1 ≠ some "arguments" || type ≠ "call" ||
    (c.2.type = "argument_list" || c.2.type = "generator_expression")) &&
  (c.1 ≠ some "attribute" || type ≠ "attribute" || c.2.type = "identifier")

mutual

/-- A tree that the grammar allows. -/
def grammatical : Node → Bool
  | mk _ type _ _ _ _ children =>
    (type ∉ fieldTypes || (children.filterMap Prod.fst).Nodup) &&
      (type ∉ namedTypes || (childIn "name" children).isSome) &&
        grammaticalAll type children

def grammaticalAll (type : String) : List Child → Bool
  | [] => true
  | (f, n) :: rest =>
    childOk type (f, n) && grammatical n && grammaticalAll type rest

end

end Node

/-- The syntax tree of a file. -/
structure SyntaxTree where
  rootNode : Node
  grammatical : rootNode.grammatical = true
  ids_nodup : rootNode.ids.Nodup

-- ==== chains

mutual

/-- `_flatten_dotted`, with the nodes of the names. -/
def flattenDotted : Node → Option (List Node)
  | .mk id type text row column endRow children =>
    if type = "identifier" then
      some [.mk id type text row column endRow children]
    else if type = "dotted_name" then
      some ((children.map Prod.snd).filter (·.type = "identifier"))
    else if type = "attribute" then
      (flattenObject children).bind fun base =>
        (Node.childIn "attribute" children).map fun attr => base ++ [attr]
    else none

/-- The chain of the object of an attribute. -/
def flattenObject : List Child → Option (List Node)
  | [] => none
  | (f, n) :: rest =>
    if f = some "object" then flattenDotted n else flattenObject rest

end

-- ==== the walker

/-- `RawRef`, its chain as the nodes of the names. -/
structure Occurrence where
  kind : RawKind
  chain : List Node
  line : Int
  column : Int
  classContext : List String

/-- What a walker is made with, and the platform's `str.isupper`. -/
structure WalkerEnv where
  moduleDotted : String
  sourceLines : List String
  isUpper : String → Bool

/-- `_Walker`. -/
structure Walker where
  definitions : List Definition
  rawRefs : List Occurrence
  importBindings : Dict String ImportBinding
  wildcardImportModules : List String
  visited : List Nat

/-- `scope_kind`. -/
inductive Scope : Type where
  | module | «class» | function
  deriving DecidableEq, Repr

/-- `_line_text`. -/
def lineText (sourceLines : List String) (row : Nat) : String :=
  (sourceLines[row]?).elim "" Gates.strip

/-- `".".join(…)` of the identifiers among the children of a node. -/
def dottedText (n : Node) : String :=
  joinDots ((n.children.filter (·.type = "identifier")).map (·.text))

namespace Walker

/-- `_Walker(module_dotted, source_lines)`. -/
def new : Walker := ⟨[], [], .empty, [], []⟩

/-- `_visited.add(n.id)`. -/
def mark (w : Walker) (n : Node) : Walker :=
  { w with visited := n.id :: w.visited }

/-- `_mark_visited`. -/
def markAll (w : Walker) (n : Node) : Walker :=
  { w with visited := n.ids ++ w.visited }

/-- `raw_refs.append`, of a chain that starts where a node does. -/
def emit (w : Walker) (kind : RawKind) (chain : List Node) (start : Node)
    (classStack : List String) : Walker :=
  { w with rawRefs := w.rawRefs ++
      [⟨kind, chain, start.row + 1, start.column + 1, classStack⟩] }

/-- `definitions.append`, of a name within a node. -/
def define (w : Walker) (env : WalkerEnv) (kind : Kind) (name whole : Node)
    (classStack : List String) : Walker :=
  { w with definitions := w.definitions ++
      [{ fqn := fqn env.moduleDotted (classStack ++ [name.text])
         name := name.text, kind := kind, file := ""
         line := name.row + 1, column := name.column + 1
         endLine := whole.endRow + 1
         snippet := lineText env.sourceLines whole.row }] }

/-- `import_bindings[local_name] = …`. -/
def bindImport (w : Walker) (localName : String) (kind : BindingKind)
    (target : String) : Walker :=
  { w with importBindings :=
      w.importBindings.set localName ⟨localName, kind, target⟩ }

-- ==== imports

/-- One child of an import statement. -/
def importedModule (w : Walker) (child : Node) : Walker :=
  if child.type = "aliased_import" then
    match (child.childByFieldName "name").or
        (child.childOfType "dotted_name"),
      child.childOfType "identifier" with
    | some dotted, some «alias» =>
      w.bindImport «alias».text .module (dottedText dotted)
    | _, _ => w
  else w

/-- `_handle_import_statement`. -/
def handleImportStatement (w : Walker) (n : Node) : Walker :=
  (n.children.foldl importedModule w).markAll n

/-- One child of a from-import. -/
def importedName (moduleDotted : String) (moduleId : Option Nat) (w : Walker)
    (child : Node) : Walker :=
  if child.type = "wildcard_import" then
    { w with wildcardImportModules :=
        w.wildcardImportModules ++ [moduleDotted] }
  else if child.type = "dotted_name" ∧ some child.id ≠ moduleId then
    w.bindImport (dottedText child) .symbol
      (moduleDotted ++ "." ++ dottedText child)
  else if child.type = "aliased_import" then
    match child.childOfType "dotted_name",
      child.childOfType "identifier" with
    | some name, some «alias» =>
      w.bindImport «alias».text .symbol
        (moduleDotted ++ "." ++ dottedText name)
    | _, _ => w
  else w

/-- `_handle_import_from_statement`. -/
def handleImportFromStatement (w : Walker) (n : Node) : Walker :=
  let moduleNode := (n.childByFieldName "module_name").or
    (n.childOfType "dotted_name")
  (n.children.foldl (importedName (moduleNode.elim "" dottedText)
    (moduleNode.map Node.id)) w).markAll n

end Walker

-- ==== the walk

/-- The parameters that are more than a name. -/
def parameterTypes : List String :=
  ["default_parameter", "typed_default_parameter", "typed_parameter"]

/-- The type of the first of some children. -/
def firstType : List Child → String
  | [] => ""
  | (_, n) :: _ => n.type

/-- A definition of the name on the left of an assignment. -/
def Walker.defineTarget (w : Walker) (env : WalkerEnv)
    (classStack : List String) (assignment : Node) : Walker :=
  match assignment.childByFieldName "left" with
  | none => w
  | some left =>
    if left.type = "identifier" then
      (w.define env (if env.isUpper left.text then .constant
        else .variable) left assignment classStack).mark left
    else w

/-- `_visited.add` of the child that fills a field. -/
def Walker.markField (w : Walker) (field : String) (children : List Child) :
    Walker :=
  (Node.childIn field children).elim w w.mark

section Walk

variable (env : WalkerEnv)

mutual

/-- `visit`. -/
def visit (w : Walker) (classStack : List String) (scope : Scope) :
    Node → Option Walker
  | .mk id type text row column endRow children =>
    let node := Node.mk id type text row column endRow children
    if id ∈ w.visited then some w
    else if type = "import_statement" then
      some (w.handleImportStatement node)
    else if type = "import_from_statement" then
      some (w.handleImportFromStatement node)
    else if type = "function_definition" then
      (Node.childIn "name" children).bind fun name =>
        (visitParameters ((w.define env
            (if classStack = [] then .function else .method) name node
            classStack).mark name) classStack children).bind fun w =>
          visitChildrenOf "body" w classStack .function children
    else if type = "class_definition" then
      (Node.childIn "name" children).bind fun name =>
        (visitField "superclasses" ((w.define env .class name node
            classStack).mark name) classStack scope children).bind fun w =>
          visitChildrenOf "body" w (classStack ++ [name.text]) .class
            children
    else if type = "expression_statement" ∧ scope ≠ .function ∧
        firstType children = "assignment" then
      visitAssigned w classStack scope children
    else if type = "keyword_argument" then
      visitField "value" (w.markField "name" children) classStack scope
        children
    else if type = "call" then
      (visitCallee w classStack scope children).bind fun w =>
        visitChildrenOf "arguments" w classStack scope children
    else if type = "attribute" then
      match flattenDotted node with
      | some chain =>
        some ((w.emit .attrRead chain node classStack).markAll node)
      | none => visitAll w classStack scope children
    else if type = "identifier" then
      some (w.emit .bareRead [node] node classStack)
    else visitAll w classStack scope children

/-- `visit` of all of some children. -/
def visitAll (w : Walker) (classStack : List String) (scope : Scope) :
    List Child → Option Walker
  | [] => some w
  | (_, n) :: rest =>
    (visit w classStack scope n).bind fun w =>
      visitAll w classStack scope rest

/-- `visit` of the child that fills a field, if there is one. -/
def visitField (field : String) (w : Walker) (classStack : List String)
    (scope : Scope) : List Child → Option Walker
  | [] => some w
  | (f, n) :: rest =>
    if f = some field then visit w classStack scope n
    else visitField field w classStack scope rest

/-- `visit` of the children of the child that fills a field. -/
def visitChildrenOf (field : String) (w : Walker) (classStack : List String)
    (scope : Scope) : List Child → Option Walker
  | [] => some w
  | (f, .mk _ _ _ _ _ _ children) :: rest =>
    if f = some field then visitAll w classStack scope children
    else visitChildrenOf field w classStack scope rest

/-- The value of an assignment, after its target. -/
def visitAssigned (w : Walker) (classStack : List String) (scope : Scope) :
    List Child → Option Walker
  | [] => some w
  | (_, .mk id type text row column endRow children) :: _ =>
    visitField "right" (w.defineTarget env classStack
      (.mk id type text row column endRow children)) classStack scope
      children

/-- The function of a call: a chain is emitted, anything else visited. -/
def visitCallee (w : Walker) (classStack : List String) (scope : Scope) :
    List Child → Option Walker
  | [] => some w
  | (f, n) :: rest =>
    if f = some "function" then
      match flattenDotted n with
      | some chain => some ((w.emit .call chain n classStack).markAll n)
      | none => visit w classStack scope n
    else visitCallee w classStack scope rest

/-- `_visit_parameters`, of a definition's parameters. -/
def visitParameters (w : Walker) (classStack : List String) :
    List Child → Option Walker
  | [] => some w
  | (f, .mk _ _ _ _ _ _ children) :: rest =>
    if f = some "parameters" then visitEachParameter w classStack children
    else visitParameters w classStack rest

/-- Each parameter: its name is marked and its default visited. -/
def visitEachParameter (w : Walker) (classStack : List String) :
    List Child → Option Walker
  | [] => some w
  | (_, .mk id type text row column endRow children) :: rest =>
    (if type = "identifier" then
      some (w.mark (.mk id type text row column endRow children))
    else if type ∈ parameterTypes then
      visitField "value" (w.markField "name" children) classStack .function
        children
    else some w).bind fun w => visitEachParameter w classStack rest

end

/-- The walk of `extract`. -/
def walk (tree : SyntaxTree) : Option Walker :=
  visitAll env .new [] .module tree.rootNode.fields

end Walk

end SdlcOs.Index

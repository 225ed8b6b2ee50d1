import GoGloss.Tree

/-!
# Parameter lists

A parameter list is read entry by entry, before it is known whether a lone
identifier is a parameter's name or a type. The list as a whole decides. If some
entry has both a name and a type, the list is named: lone identifiers are names
that share the next type, and an entry without a name is out of place. Otherwise
all entries are types.
-/

namespace GoGloss.Grammar

/-- One entry of a parameter list. -/
inductive ParamEntry where
  /-- A lone identifier. -/
  | bare (name : Name)
  /-- A type, with a name in front of it or not. -/
  | typed (name : Option Name) (type : Expr) (span : Span)

namespace ParamEntry

/-- The bytes of an entry. -/
def span : ParamEntry → Span
  | .bare name => name.pos
  | .typed _ _ span => span

/-- Whether an entry has both a name and a type. -/
def isNamed : ParamEntry → Bool
  | .typed (some _) _ _ => true
  | _ => false

/-- Whether an entry is a lone identifier. -/
def isBare : ParamEntry → Bool
  | .bare _ => true
  | .typed .. => false

/-- An entry of a list without names as a field. -/
def unnamedField : ParamEntry → Field
  | .bare name => ⟨name.pos, [], .ident name, none⟩
  | .typed _ type span => ⟨span, [], type, none⟩

end ParamEntry

/--
The fields of a named list, where `waiting` holds the lone identifiers since the
last type. The result is the span of the entry at fault when an entry has no
name, or when identifiers are left waiting at the end, where `last` is the span
of the entry before.
-/
def groupNamed (waiting : List Name) (last : Span) : List ParamEntry → Except Span (List Field)
  | [] => if waiting.isEmpty then .ok [] else .error last
  | .bare name :: entries => groupNamed (waiting ++ [name]) name.pos entries
  | .typed none _ span :: _ => .error span
  | .typed (some name) type span :: entries => do
    let names := waiting ++ [name]
    let start := waiting.head?.elim span.start (·.pos.start)
    let fields ← groupNamed [] span entries
    return ⟨⟨start, span.stop⟩, names, type, none⟩ :: fields

/-- The fields of a parameter list, or the span of the entry that does not fit in. -/
def groupParams (entries : List ParamEntry) : Except Span (List Field) :=
  if entries.any ParamEntry.isNamed then groupNamed [] ⟨0, 0⟩ entries
  else .ok (entries.map ParamEntry.unnamedField)

/-- The identifiers of a parameter list that turn out to be types. -/
def bareTypes (entries : List ParamEntry) : List Expr :=
  if entries.any ParamEntry.isNamed then []
  else (entries.filter ParamEntry.isBare).map (·.unnamedField.type)

end GoGloss.Grammar

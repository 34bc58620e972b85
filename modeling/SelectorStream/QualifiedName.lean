/-
# `SelectorStream.QualifiedName` — names with a namespace

A type or attribute name in a selector may carry a namespace before a bar.
Four cases are told apart:

| written | namespace |
| :-- | :-- |
| `name` | nothing written: the implied one |
| `\|name` | explicitly none |
| `*\|name` | any, or none |
| `ns\|name` | the one declared under `ns` |

A declared label may be any text.  The labels `""` and `"*"` are written like
the second and the third case, and `ofLabel` reads those two cases from them;
`label?_ofLabel` says that no text is lost on the way.
-/

namespace SelectorStream

inductive Namespace where
  /-- Nothing was written; the default namespace applies. -/
  | implied
  | empty
  /-- Any namespace, or none. -/
  | any
  /-- The namespace declared under a label. -/
  | declared (label : String)
deriving DecidableEq

namespace Namespace

/-- The namespace for the label before the bar; `none` when there is no bar. -/
def ofLabel : Option String → Namespace
  | none => .implied
  | some label =>
    if label = "" then .empty else if label = "*" then .any else .declared label

def label? : Namespace → Option String
  | .implied => none
  | .empty => some ""
  | .any => some "*"
  | .declared label => some label

/-- The label, or the empty text when there is no bar. -/
def text (ns : Namespace) : String :=
  ns.label?.getD ""

/-- One namespace is pinned down: none at all, or a declared one. -/
def isSpecific : Namespace → Bool
  | .empty | .declared _ => true
  | .implied | .any => false

def qualify (ns : Namespace) (name : String) : String :=
  match ns.label? with
  | none => name
  | some label => label ++ "|" ++ name

theorem label?_ofLabel (label : Option String) : (ofLabel label).label? = label := by
  cases label with
  | none => rfl
  | some label =>
    simp only [ofLabel]
    split
    · simp_all [label?]
    · split <;> simp_all [label?]

theorem toList_qualify {ns : Namespace} {label : String} (h : ns.label? = some label)
    (name : String) : (ns.qualify name).toList = label.toList ++ '|' :: name.toList := by
  simp [qualify, h]

end Namespace

structure QualifiedName where
  ns : Namespace
  name : String
deriving DecidableEq

def QualifiedName.text (q : QualifiedName) : String :=
  q.ns.qualify q.name

end SelectorStream
